import BytecodeDebugger.Proofs.Machine.Attendance
import BytecodeDebugger.Proofs.Session.Steady
import Mathlib.Tactic.Set

/-!
# A session over the machine, from rest to rest

Between operations a session over the machine is in one of two situations: nothing is parked and the
engine is running, or the frames of the machine are exactly those that are parked and the engine
stands still (`Session.Resting`). Only two pieces of code run the machine, the start of a call and
the re-entry into the parked frames; this file says what either of them comes to.

* `start_advances` — starting a call is running it under the debugger;
* `reenter_advances` — re-entering the parked frames is going on with their run under the debugger,
  by an engine that is awake again (`Engine.woken`);
* `Machine.Ends.resting` — either way the session is at rest afterwards.
-/

namespace BytecodeDebugger

namespace Engine

/-! ### Waking up -/

/-- The engine once the last parked frame was handed back. -/
def woken (e : Engine) : Engine := (e.transition .resuming {}).handOver []

/-- From any status but resuming the program can be resumed. -/
theorem transition_resuming {e : Engine} (h : e.status ≠ .resuming) :
    e.transition .resuming {} = { e with
      status := .resuming
      payload := {}
      requests := e.requests.push ⟨e.status, .resuming, e.parked.length⟩
      events := e.events.push (.stateUpdated .resuming {}) } := by
  refine transition_allowed ?_ {}
  cases hs : e.status with
  | resuming => exact absurd hs h
  | running | suspending | suspended => rfl

theorem woken_eq {e : Engine} (h : e.status ≠ .resuming) :
    e.woken = { e with
      parked := []
      status := .running
      payload := {}
      requests := (e.requests.push ⟨e.status, .resuming, e.parked.length⟩).push
        ⟨.resuming, .running, 0⟩
      events := (e.events.push (.stateUpdated .resuming {})).push (.stateUpdated .running {}) } := by
  unfold woken
  rw [transition_resuming h, handOver_nil rfl]

/-! ### The end of a run -/

/-- Deals with the failure of a run, if it failed. -/
def conclude (e : Engine) (origin : Option StackEntry) : RunResult → Engine
  | .ok _ => e
  | .error error => (e.fail error origin).2

/-- While the program runs and nothing is parked there is nothing to abandon. -/
theorem abandonSuspension_running {e : Engine} (hs : e.status = .running) (hp : e.parked = []) :
    e.abandonSuspension = e := by
  have hempty : e.parked.isEmpty = true := by rw [hp]; rfl
  unfold abandonSuspension
  dsimp only
  rw [if_pos hempty, if_pos hs]

theorem fail_running {e : Engine} (hs : e.status = .running) (hp : e.parked = [])
    (error : ExecError) (origin : Option StackEntry) :
    (e.fail error origin).2.status = .running ∧ (e.fail error origin).2.parked = [] := by
  obtain ⟨e', ⟨_, _, rfl, -⟩, h⟩ := e.fail_eq error origin
  rw [h]
  exact ⟨hs, hp⟩

/-- The end of a run that entered parked frames again is dealt with like any other. -/
theorem afterResuming_eq {e : Engine} {result : RunResult}
    (h : result = .ok .suspended ∨ (e.status = .running ∧ e.parked = []))
    (origin : Option StackEntry) : e.afterResuming origin result = e.conclude origin result := by
  -- the run was held up, or left a program that runs with nothing parked
  rcases h with rfl | ⟨hs, hp⟩
  · rfl
  · cases result with
    | error error =>
      obtain ⟨hs', hp'⟩ := fail_running hs hp error origin
      exact abandonSuspension_running hs' hp'
    | ok outcome =>
      cases outcome with
      | suspended => rfl
      | completed values =>
        change (if e.status = .resuming then e.abandonSuspension else e) = e
        rw [if_neg (by rw [hs]; simp)]

end Engine

/-! ### Resting -/

/-- **A session at rest**: the frames of the machine are those of `stack`, innermost first, and they
are parked. -/
structure Session.Resting (s : Session Machine) (stack : List FrameId) : Prop where
  runs : s.vm.Runs .empty stack
  parked : s.engine.parked = (stack.map Resumable.call).reverse
  running : s.engine.status = .running ↔ stack = []
  paused : s.engine.status ≠ .resuming

namespace Session.Resting

variable {s : Session Machine} {stack : List FrameId}

/-- Nothing is parked while the program runs. -/
theorem unparked (h : s.Resting stack) (hs : s.engine.status = .running) :
    stack = [] ∧ s.engine.parked = [] := by
  have hstack := h.running.mp hs
  refine ⟨hstack, ?_⟩
  rw [h.parked, hstack]
  rfl

theorem frames (h : s.Resting []) : s.vm.frames = .empty := h.runs.frames_eq

/-- Announcing a stop changes the status, and puts off the next automatic step. -/
theorem enterSuspended_eq {σ : Type} (I : Interpreter σ) {s : Session σ}
    (hs : s.engine.status = .suspending) (location : SourceLocation) :
    ∃ payload timers, s.enterSuspended I location = s.setEngine { s.engine with
      status := .suspended
      payload
      requests := s.engine.requests.push ⟨.suspending, .suspended, s.engine.parked.length⟩
      events := s.engine.events.push (.stateUpdated .suspended payload)
      timers } := by
  -- a program that is suspending may be suspended, so that the request is granted
  have hallowed : s.engine.status.mayBecome .suspended = true := by rw [hs]; rfl
  unfold Session.enterSuspended
  dsimp only
  rw [Engine.transition_allowed hallowed, hs]
  split
  · exact ⟨_, _, rfl⟩
  · exact ⟨_, s.engine.timers, rfl⟩

theorem enterSuspended {I : Interpreter Machine} (h : s.Resting stack)
    (hs : s.engine.status = .suspending) (location : SourceLocation) :
    (s.enterSuspended I location).Resting stack := by
  obtain ⟨payload, timers, heq⟩ := enterSuspended_eq I hs location
  have hstack : stack ≠ [] := by
    -- a session that is suspending has something parked
    intro hnil
    have hrunning := h.running.mpr hnil
    rw [hs] at hrunning
    cases hrunning
  rw [heq]
  exact ⟨h.runs, h.parked, ⟨fun hc => Status.noConfusion hc, fun hc => absurd hc hstack⟩,
    fun hc => Status.noConfusion hc⟩

/-- Loading a chunk adds a function, and nothing else. -/
theorem load {e : Engine} {vm : Machine} (h : Session.Resting ⟨e, vm⟩ stack) (chunk : Chunk)
    (file : String) : Session.Resting ⟨e, (vm.load chunk file).2⟩ stack :=
  ⟨h.runs.of_grows rfl (.mint vm _), h.parked, h.running, h.paused⟩

/-- A new session over a machine without frames is at rest. -/
theorem fresh (config : Config) (saved : SavedSession) (clock : Time) {vm : Machine}
    (hvm : vm.frames = .empty) : Session.Resting ⟨.start config saved clock, vm⟩ [] := by
  have hruns := Machine.Runs.nil (.of_empty hvm)
  rw [hvm] at hruns
  exact ⟨hruns, rfl, ⟨fun _ => rfl, fun _ => rfl⟩, fun hc => Status.noConfusion hc⟩

/-- When nothing is parked, a session that is woken is at rest at once. -/
theorem woken (h : s.Resting []) : (s.setEngine s.engine.woken).Resting [] := by
  have hwoken := Engine.woken_eq h.paused
  refine ⟨h.runs, ?_, ?_, ?_⟩ <;> simp [Session.setEngine, hwoken]

/-- What leaves the status and the parked frames alone leaves the session at rest. -/
theorem of_engine (h : s.Resting stack) {e : Engine} (hs : e.status = s.engine.status)
    (hp : e.parked = s.engine.parked) : (s.setEngine e).Resting stack :=
  ⟨h.runs, hp.trans h.parked, by rw [← h.running, ← hs]; rfl, fun hc => h.paused (hs.symm.trans hc)⟩

end Session.Resting

namespace Machine

variable {m : Machine} {e e' : Engine} {x : RunResult × Machine}
  {Alone : RunResult × Machine → Prop}

/-- How the engine stands at the end of a run. -/
theorem Ends.standing (h : Ends Alone .empty m e x e') (hs : e.status = .running)
    (hp : e.parked = []) :
    x.1 = .ok .suspended ∨ (e'.status = .running ∧ e'.parked = []) := by
  cases h with
  | held => exact .inl rfl
  | ended x x₀ e₁ l' alone alike works =>
    exact .inr ⟨works.status.trans hs, works.parked.trans hp⟩

/-- A run that was held up leaves its frames parked. -/
theorem resting_held {m' : Machine} {e₁ : Engine} {current : FrameId} {callers : List FrameId}
    (runs : m'.Runs .empty (current :: callers)) (hs : e₁.status = .running) (hp : e₁.parked = [])
    (a : Activation) (i : Instruction) :
    Session.Resting ⟨e₁.hold (siteOf current a i) callers, m'⟩ (current :: callers) := by
  rw [Engine.hold_eq hs hp]
  exact ⟨runs, rfl, by simp, by simp⟩

/-- A run that came to its end leaves nothing parked. -/
theorem resting_ended {e₁ : Engine} (hs : e₁.status = .running) (hp : e₁.parked = [])
    (hframes : m.frames = .empty) (hb : m.Bounded) (origin : Option StackEntry) (r : RunResult) :
    Session.Resting ⟨e₁.conclude origin r, m⟩ [] := by
  have hruns : m.Runs .empty [] := by
    rw [← hframes]
    exact .nil hb
  have hstanding : (e₁.conclude origin r).status = .running ∧ (e₁.conclude origin r).parked = [] := by
    cases r with
    | ok outcome => exact ⟨hs, hp⟩
    | error error => exact Engine.fail_running hs hp error origin
  refine ⟨hruns, hstanding.2, ⟨fun _ => rfl, fun _ => hstanding.1⟩, fun hc => ?_⟩
  have hstatus : Status.running = .resuming := hstanding.1.symm.trans hc
  cases hstatus

/-- **A run under the debugger ends in a session at rest.** -/
theorem Ends.resting (h : Ends Alone .empty m e x e') (hs : e.status = .running)
    (hp : e.parked = []) (origin : Option StackEntry) :
    ∃ stack, Session.Resting ⟨e'.conclude origin x.1, x.2⟩ stack := by
  cases h with
  | held m' e₁ current callers a i runs grows works held rest =>
    exact ⟨_, resting_held runs (works.status.trans hs) (works.parked.trans hp) a i⟩
  | ended x x₀ e₁ l' alone alike works frames bounded grows =>
    have hs' : ({ e₁ with errors := l' } : Engine).status = .running := works.status.trans hs
    exact ⟨[], resting_ended hs' (works.parked.trans hp) frames bounded origin x.1⟩

/-- No run makes a waiting call. -/
theorem Ends.waiting (h : Ends Alone .empty m e x e') (hs : e.status = .running)
    (hp : e.parked = []) (origin : Option StackEntry) :
    (e'.conclude origin x.1).waiting = e.waiting := by
  cases h with
  | held m' e₁ current callers a i runs grows works held rest =>
    change (e₁.hold (siteOf current a i) callers).waiting = e.waiting
    rw [Engine.hold_eq (works.status.trans hs) (works.parked.trans hp)]
    exact works.waiting
  | ended x x₀ e₁ l' alone alike works =>
    cases x.1 with
    | ok outcome => exact works.waiting
    | error error => exact (Chronicle.waiting_fail _ error origin).trans works.waiting

end Machine

/-! ### Advancing -/

section

variable {fuel : Nat} {s s' : Session Machine} {stack : List FrameId}

/-- **Starting a call is running it under the debugger**, and then dealing with its failure. -/
theorem start_advances (h : s.Resting []) {call : DeferredCall} {waiting : List DeferredCall}
    (hstart : (Chronicle.start (Machine.interpreter fuel) s call waiting).outcome = .ok s') :
    ∃ x e', s' = ⟨e'.conclude none x.1, x.2⟩ ∧
      (Machine.call fuel call.function call.args s.vm).run Engine.reply { s.engine with waiting } =
        .ok (x, e') ∧
      Machine.Ends (fun y => ∃ k, (Machine.call k call.function call.args s.vm).detach = .ok y)
        .empty s.vm { s.engine with waiting } x e' := by
  rw [Chronicle.outcome_start] at hstart
  cases hattend : (s.setEngine { s.engine with waiting }).attend
      ((Machine.interpreter fuel).call call.function call.args) with
  | error reason =>
    rw [hattend] at hstart
    cases hstart
  | ok p =>
    obtain ⟨result, s₁⟩ := p
    have hrun := Session.attend_eq_ok.mp hattend
    -- at rest with nothing parked, the call is entered above no frames at all
    have hends := Machine.call_attends (m := s.vm) h.runs.bounded hrun
    rw [h.frames] at hends
    refine ⟨(result, s₁.vm), s₁.engine, ?_, hrun, hends⟩
    rw [hattend] at hstart
    cases result <;> cases hstart <;> rfl

/-- When nothing is parked, there is nothing to enter again. -/
theorem popOutermost_nil {σ : Type} {s : Session σ} (hs : s.engine.status ≠ .resuming)
    (hp : s.engine.parked = []) : (s.engine.transition .resuming {}).popOutermost = none := by
  rw [Engine.transition_resuming hs]
  unfold Engine.popOutermost
  simp only [hp]

/-- When nothing is parked, nothing runs. -/
theorem reenter_nil {σ : Type} (I : Interpreter σ) {s : Session σ} (hs : s.engine.status ≠ .resuming)
    (hp : s.engine.parked = []) : Chronicle.reenter I s = pure (s.setEngine s.engine.woken) := by
  have hresuming := Engine.transition_resuming hs
  have hpop := popOutermost_nil hs hp
  have hwoken : (s.engine.transition .resuming {}).transition .running {} = s.engine.woken := by
    unfold Engine.woken Engine.handOver
    rw [hresuming, hp]
    rfl
  unfold Chronicle.reenter
  dsimp only
  rw [hpop, hwoken]

/-- The outermost frame is the first of the parked ones. -/
theorem popOutermost_snoc {inner : List FrameId} {outer : FrameId} (h : s.Resting (inner ++ [outer])) :
    (s.engine.transition .resuming {}).popOutermost =
      some (.call outer,
        (s.engine.transition .resuming {}).handOver (inner.reverse.map Resumable.call)) := by
  have hparked : s.engine.parked = .call outer :: inner.reverse.map Resumable.call := by
    rw [h.parked]
    simp
  rw [Engine.transition_resuming h.paused]
  unfold Engine.popOutermost
  simp only [hparked]
  rfl

/-- The outermost frame is popped, and the machine is told to run it; it takes the others back through
the hook. -/
theorem reenter_snoc (fuel : Nat) {inner : List FrameId} {outer : FrameId} (h : s.Resting (inner ++ [outer])) :
    ∃ origin, Chronicle.reenter (Machine.interpreter fuel) s =
      Chronicle.attend (s.setEngine
          ((s.engine.transition .resuming {}).handOver (inner.reverse.map .call)))
        (Machine.runFrame fuel outer) >>= fun p =>
          pure (p.2.setEngine (p.2.engine.afterResuming origin p.1)) := by
  have hpop := popOutermost_snoc h
  refine ⟨((Machine.interpreter fuel).frame? s.vm outer).map fun view => ⟨outer, view.pc⟩, ?_⟩
  unfold Chronicle.reenter
  dsimp only
  rw [hpop]
  rfl

/-- **Re-entering the parked frames is going on with their run** under the debugger, which is awake
again. -/
theorem reenter_advances {inner : List FrameId} {outer : FrameId} (h : s.Resting (inner ++ [outer]))
    (hreenter : (Chronicle.reenter (Machine.interpreter fuel) s).outcome = .ok s') :
    ∃ x e' origin, s' = ⟨e'.conclude origin x.1, x.2⟩ ∧
      (Machine.runFrame fuel outer s.vm).run Engine.reply
        ((s.engine.transition .resuming {}).handOver (inner.reverse.map .call)) = .ok (x, e') ∧
      Machine.Ends (fun y => ∃ k, (Machine.run k (inner ++ [outer]) s.vm).detach = .ok y) .empty s.vm
        s.engine.woken x e' := by
  obtain ⟨origin, heq⟩ := reenter_snoc fuel h
  rw [heq, Chronicle.outcome_bind] at hreenter
  cases hattend : (s.setEngine ((s.engine.transition .resuming {}).handOver
      (inner.reverse.map .call))).attend (Machine.runFrame fuel outer) with
  | error reason =>
    simp only [Chronicle.attend, hattend] at hreenter
    cases hreenter
  | ok p =>
    obtain ⟨result, s₁⟩ := p
    simp only [Chronicle.attend, hattend] at hreenter
    have hrun := Session.attend_eq_ok.mp hattend
    -- every frame that is taken back is live, so that the rebuilt stack is the parked one
    have hlive : ∀ f ∈ outer :: inner.reverse, ∃ a, s.vm.frame? f = some a := by
      intro f hf
      refine h.runs.live f ?_
      rcases List.mem_cons.mp hf with rfl | hf
      · simp
      · exact List.mem_append_left _ (List.mem_reverse.mp hf)
    have hstatus : (s.engine.transition .resuming {}).status = .resuming := by
      rw [Engine.transition_resuming h.paused]
    have hstack : (outer :: inner.reverse).reverse = inner ++ [outer] := by simp
    have hrun' : (Machine.run fuel (inner ++ [outer]) s.vm).run Engine.reply s.engine.woken =
        .ok ((result, s₁.vm), s₁.engine) := by
      rw [← hstack]
      exact Machine.runFrame_run hstatus hlive hrun
    have hends := Machine.run_attends h.runs (by simp) hrun'
    have hwoken := Engine.woken_eq h.paused
    -- a run leaves nothing to abandon: it stops again, or the program runs
    have hstanding := hends.standing (by rw [hwoken]) (by rw [hwoken])
    cases hreenter
    refine ⟨(result, s₁.vm), s₁.engine, origin, ?_, hrun, hends⟩
    change s₁.setEngine (s₁.engine.afterResuming origin result) = _
    rw [Engine.afterResuming_eq hstanding]
    rfl

/-- **Where a session comes to that is entered again**: it is woken when nothing is parked, and
otherwise it ends as a run under a debugger that is awake. -/
theorem Session.Resting.reentered {stack : List FrameId} (h : s.Resting stack)
    (hreenter : (Chronicle.reenter (Machine.interpreter fuel) s).outcome = .ok s') :
    stack = [] ∧ s' = s.setEngine s.engine.woken ∨
      ∃ Alone x e' origin, s' = ⟨e'.conclude origin x.1, x.2⟩ ∧
        Machine.Ends Alone .empty s.vm s.engine.woken x e' ∧
        s.engine.woken.status = .running ∧ s.engine.woken.parked = [] := by
  -- nothing is parked, or the outermost frame is entered again
  rcases List.eq_nil_or_concat stack with rfl | ⟨inner, outer, rfl⟩
  · rw [reenter_nil _ h.paused h.parked] at hreenter
    cases hreenter
    exact .inl ⟨rfl, rfl⟩
  · rw [List.concat_eq_append] at h
    obtain ⟨x, e', origin, hs', -, hends⟩ := reenter_advances h hreenter
    have hwoken := Engine.woken_eq h.paused
    exact .inr ⟨_, x, e', origin, hs', hends, by rw [hwoken], by rw [hwoken]⟩

end

/-! ### A small machine -/

/-- A machine with two functions: the first calls its argument on line 1 and returns on line 2, the
second returns on line 1. -/
def Machine.relay : Machine where
  heap := ⟨#[.empty]⟩
  cells := #[]
  functions := #[
    .closure ⟨{ numParams := 1, instructions := #[⟨28, 0, 1, 1⟩, ⟨30, 0, 1, 0⟩], lines := #[1, 2] },
      [], ""⟩,
    .closure ⟨{ instructions := #[⟨30, 0, 1, 0⟩], lines := #[1] }, [], ""⟩]
  frames := .empty
  nextFrame := 0
  output := #[]
  traceback := none

end BytecodeDebugger
