import BytecodeDebugger.Proofs.Machine.Traceback
import BytecodeDebugger.Proofs.Machine.Walk
import BytecodeDebugger.Proofs.Session.Stops

/-!
# Where a run takes a session

The start of a call and the re-entry into the parked frames are the only pieces of code that run the
machine. Either of them takes the session to a stop, where the instruction in question is ahead and
its line is the barrier of its frame (`Session.Stopped`), or to rest with nothing parked. What
matters of the way there is how many turns and instructions it took (`Session.Reaches`).

Main statements:

* `start_reaches`, `reenter_reaches` — the two pieces of code, when they end;
* `start_finishes`, `reenter_finishes` — they end if what they run ends without a debugger;
* `visited_reentry`, `Session.Stopped.first` — what is visited when a session that stopped goes on:
  first of all the instruction at which it stopped, which is not held up again.
-/

namespace BytecodeDebugger

open Machine (Walks Walked Passing)

/-! ### Stopped -/

/-- **A session that stopped at a visit**: the instruction is ahead, and its line is the barrier of
the frame. -/
structure Session.Stopped (s : Session Machine) (callers : List FrameId) (v : Visit) : Prop where
  rests : s.Resting (v.site.frame :: callers)
  ahead : s.vm.ahead (v.site.frame :: callers) = some v.site
  barrier : s.engine.barriers.get? v.site.frame = some v.location
  held : v.Held

namespace Session.Stopped

variable {s : Session Machine} {callers : List FrameId} {v : Visit}

theorem of_engine (h : s.Stopped callers v) {e : Engine} (hs : e.status = s.engine.status)
    (hp : e.parked = s.engine.parked) (hb : e.barriers = s.engine.barriers) :
    (s.setEngine e).Stopped callers v :=
  ⟨h.rests.of_engine hs hp, h.ahead, (congrArg (·.get? v.site.frame) hb).trans h.barrier, h.held⟩

/-- A stop that is announced stays where it is. -/
theorem announced (h : s.Stopped callers v) (I : Interpreter Machine) (location : SourceLocation)
    (hsuspending : s.engine.status = .suspending) :
    (s.enterSuspended I location).Stopped callers v := by
  have hrests := h.rests.enterSuspended (I := I) hsuspending location
  obtain ⟨payload, timers, heq⟩ := Session.Resting.enterSuspended_eq I hsuspending location
  rw [heq] at hrests ⊢
  exact ⟨hrests, h.ahead, h.barrier, h.held⟩

theorem load {e : Engine} {vm : Machine} (h : Session.Stopped ⟨e, vm⟩ callers v) (chunk : Chunk)
    (file : String) : Session.Stopped ⟨e, (vm.load chunk file).2⟩ callers v :=
  ⟨h.rests.load chunk file, h.ahead, h.barrier, h.held⟩

theorem paused (h : s.Stopped callers v) : s.engine.status ≠ .running :=
  fun hrunning => absurd (h.rests.running.mp hrunning) (by simp)

/-- **The instruction at which a session stopped is not held up again** when the engine is awake. -/
theorem passes (h : s.Stopped callers v) : ¬Visit.Held ⟨s.engine.woken, v.site⟩ := by
  have hbarrier : s.engine.woken.barriers.get? v.site.frame = some v.location := by
    rw [Engine.woken_eq h.rests.paused]
    exact h.barrier
  have hbarred : s.engine.woken.isBarred v.site = true := decide_eq_true hbarrier
  rw [Visit.held_iff]
  unfold Engine.shouldSuspend
  simp [hbarred]

end Session.Stopped

/-- **How a session stands at rest**: nothing is parked, or it stopped at a visit, with what is said
about either. -/
inductive Session.Stands (s : Session Machine) (Free : Prop) (At : Visit → List FrameId → Prop) :
    Prop where
  | free (rests : s.Resting []) (holds : Free) : Session.Stands s Free At
  | stopped (v : Visit) (callers : List FrameId) (stops : s.Stopped callers v)
    (holds : At v callers) : Session.Stands s Free At

namespace Session.Stands

variable {s : Session Machine} {Free Free' : Prop} {At At' : Visit → List FrameId → Prop}

theorem imp (h : s.Stands Free At) (hfree : Free → Free')
    (hat : ∀ v callers, At v callers → At' v callers) : s.Stands Free' At' := by
  cases h with
  | free rests holds => exact .free rests (hfree holds)
  | stopped v callers stops holds => exact .stopped v callers stops (hat v callers holds)

theorem of_engine (h : s.Stands Free At) {e : Engine} (hs : e.status = s.engine.status)
    (hp : e.parked = s.engine.parked) (hb : e.barriers = s.engine.barriers) :
    (s.setEngine e).Stands Free At := by
  cases h with
  | free rests holds => exact .free (rests.of_engine hs hp) holds
  | stopped v callers stops holds => exact .stopped v callers (stops.of_engine hs hp hb) holds

theorem announced (h : s.Stands Free At) (I : Interpreter Machine) (location : SourceLocation)
    (hsuspending : s.engine.status = .suspending) : (s.enterSuspended I location).Stands Free At := by
  cases h with
  | free rests holds => exact absurd ((rests.running.mpr rfl).symm.trans hsuspending) (by decide)
  | stopped v callers stops holds =>
    exact .stopped v callers (stops.announced I location hsuspending) holds

theorem load {e : Engine} {vm : Machine} (h : Session.Stands ⟨e, vm⟩ Free At) (chunk : Chunk)
    (file : String) : Session.Stands ⟨e, (vm.load chunk file).2⟩ Free At := by
  cases h with
  | free rests holds => exact .free (rests.load chunk file) holds
  | stopped v callers stops holds => exact .stopped v callers (stops.load chunk file) holds

/-- While the program runs, it is stopped nowhere. -/
theorem running (h : s.Stands Free At) (hs : s.engine.status = .running) : s.Resting [] ∧ Free := by
  cases h with
  | free rests holds => exact ⟨rests, holds⟩
  | stopped v callers stops => exact absurd hs stops.paused

/-- When it does not run, it stopped somewhere. -/
theorem paused (h : s.Stands Free At) (hs : s.engine.status ≠ .running) :
    ∃ v callers, s.Stopped callers v ∧ At v callers := by
  cases h with
  | free rests => exact absurd (rests.running.mpr rfl) hs
  | stopped v callers stops holds => exact ⟨v, callers, stops, holds⟩

end Session.Stands

/-! ### The end of a run -/

/-- **Where a run takes a session**, given how it may walk (`Way`), what it comes to without a
debugger (`Alone`), how many tasks were put off before it, and its visits. A stop puts off one more. -/
inductive Session.Reaches (Way : Nat → Nat → List FrameId → Machine → Prop)
    (Alone : RunResult × Machine → Prop) (tasks : Nat) (vs : List Visit) : Session Machine → Prop where
  | stopped (n : Nat) (passed : List Visit) (v : Visit) (callers : List FrameId)
    (s : Session Machine) (stops : s.Stopped callers v)
    (way : Way n passed.length (v.site.frame :: callers) s.vm) (split : vs = passed ++ [v])
    (unheld : ∀ u ∈ passed, ¬u.Held) (timers : s.engine.timers.length = tasks + 1) :
    Session.Reaches Way Alone tasks vs s
  | free (x₀ : RunResult × Machine) (s : Session Machine) (rests : s.Resting []) (alone : Alone x₀)
    (same : s.vm.untraced = x₀.2.untraced) (unheld : ∀ u ∈ vs, ¬u.Held)
    (timers : s.engine.timers.length = tasks) : Session.Reaches Way Alone tasks vs s

namespace Machine

variable {Way : Nat → Nat → List FrameId → Machine → Prop} {Alone : RunResult × Machine → Prop}
  {m m₀ : Machine} {e e' : Engine} {x : RunResult × Machine} {vs : List Visit} {stack : List FrameId}

/-- Results that are alike differ by the traceback at most. -/
theorem Alike.untraced {l l' : ErrorLog} {x x₀ : RunResult × Machine} (h : Alike l x x₀ l') :
    x.2.untraced = x₀.2.untraced ∧ x.1 ≠ .ok .suspended := by
  cases h <;> exact ⟨rfl, by simp⟩

/-- A run that is over leaves nothing parked. -/
theorem Ends.free (h : Ends Alone .empty m₀ e x e') (hs : e.status = .running) (hp : e.parked = [])
    (hover : x.1 ≠ .ok .suspended) (hunheld : ∀ u ∈ vs, ¬u.Held) (origin : Option StackEntry) :
    Session.Reaches Way Alone e.timers.length vs ⟨e'.conclude origin x.1, x.2⟩ := by
  cases h with
  | held => exact absurd rfl hover
  | ended x x₀ e₁ l' alone alike works frames bounded grows =>
    have hs' : ({ e₁ with errors := l' } : Engine).status = .running := works.status.trans hs
    have hrests := resting_ended hs' (works.parked.trans hp) frames bounded origin x.1
    refine .free x₀ _ hrests alone alike.untraced.1 hunheld (congrArg List.length ?_)
    -- dealing with a failure puts nothing off
    cases x.1 with
    | ok outcome => exact works.timers
    | error error =>
      obtain ⟨e₂, ⟨_, _, rfl, -⟩, heq⟩ := Engine.fail_eq { e₁ with errors := l' } error origin
      change (Engine.fail { e₁ with errors := l' } error origin).2.timers = e.timers
      rw [heq]
      exact works.timers

/-- **A run under the debugger** takes the session to its stop, or to rest. -/
theorem Ends.reaches (h : Ends Alone .empty m₀ e x e') (hwalked : Walked stack m e vs x e')
    (hruns : m.Runs .empty stack) (hne : stack ≠ []) (hs : e.status = .running) (hp : e.parked = [])
    (hway : ∀ n i stack' m', Walks n i stack m stack' m' → Way n i stack' m')
    (origin : Option StackEntry) :
    Session.Reaches Way Alone e.timers.length vs ⟨e'.conclude origin x.1, x.2⟩ := by
  cases hwalked with
  | ended _ _ unsuspended unheld => exact h.free hs hp unsuspended unheld origin
  | held n passed v callers m' walks ahead works held split unheld =>
    -- up to the stop nothing was parked and the program was running
    have hs' := works.status.trans hs
    have hp' := works.parked.trans hp
    obtain ⟨hruns', -, -, -⟩ := walks.keeps hruns hne
    -- the site of the stop is that of the frame on top
    obtain ⟨a, -, hsite⟩ := Option.bind_eq_some_iff.mp ahead
    obtain ⟨i, -, hsite⟩ := Option.map_eq_some_iff.mp hsite
    have hrests := resting_held hruns' hs' hp' a i
    rw [hsite] at hrests
    refine .stopped n passed v callers _ ⟨hrests, ahead, ?_, held⟩ (hway _ _ _ _ walks) split unheld
      ?_
    · change (v.engine.hold v.site callers).barriers.get? v.site.frame = some v.location
      rw [Tracks.barriers_hold, SortedMap.get?_insert, if_pos rfl]
      rfl
    · change (v.engine.hold v.site callers).timers.length = e.timers.length + 1
      rw [Engine.hold_eq hs' hp', ← works.timers]
      exact List.length_append

end Machine

section

variable {fuel : Nat} {s s' : Session Machine} {stack : List FrameId} {call : DeferredCall}
  {waiting : List DeferredCall}

/-! ### Starting a call -/

/-- **A call was entered and walked on.** -/
def Machine.Entered (m : Machine) (c : DeferredCall) (n i : Nat) (stack : List FrameId)
    (m' : Machine) : Prop :=
  ∃ closure, m.callable? c.function = some (.closure closure) ∧ closure.Fits ∧
    Walks n i [m.nextFrame] (m.enter closure c.args).2 stack m'

/-- **A call that is started stops or ends.** -/
theorem start_reaches (h : s.Resting []) (hs : s.engine.status = .running)
    (hstart : (Chronicle.start (Machine.interpreter fuel) s call waiting).outcome = .ok s') :
    Session.Reaches (s.vm.Entered call)
      (fun y => ∃ k, (Machine.call k call.function call.args s.vm).detach = .ok y)
      s.engine.timers.length
      (visited (Chronicle.start (Machine.interpreter fuel) s call waiting).happenings) s' := by
  obtain ⟨-, hp⟩ := h.unparked hs
  obtain ⟨x, e', rfl, hrun, hends⟩ := start_advances h hstart
  rw [visited_start]
  rcases Machine.call_walks h.runs.bounded hrun with
    ⟨closure, hcallable, hwalked⟩ | ⟨hnone, hover⟩
  · have hruns := Machine.Runs.entered h.runs.bounded closure call.args
    rw [h.frames] at hruns
    -- what is walked from the entered function is the way of the call
    have hway : ∀ n i stack' m',
        Walks n i [s.vm.nextFrame] (s.vm.enter closure call.args).2 stack' m' →
          s.vm.Entered call n i stack' m' :=
      fun _ _ _ _ hwalks => ⟨closure, hcallable, Machine.fits_of_run hcallable hrun, hwalks⟩
    exact hends.reaches hwalked hruns (by simp) hs hp hway none
  · rw [hnone]
    exact hends.free hs hp hover (fun u hu => by cases hu) none

/-- The visits of a call are no more than the instructions it executes. -/
theorem passing_start (fuel : Nat) (call : DeferredCall) (waiting : List DeferredCall)
    (h : s.Resting []) :
    Passing (Machine.call fuel call.function call.args s.vm).instructions
      (visited (Chronicle.start (Machine.interpreter fuel) s call waiting).happenings) := by
  rw [visited_start]
  exact Machine.call_visits_le h.runs.bounded

/-- **A call that ends without a debugger** comes to an outcome with one. -/
theorem start_finishes {k : Nat} (hle : k ≤ fuel) (h : s.Resting []) (waiting : List DeferredCall)
    {x : RunResult × Machine}
    (halone : (Machine.call k call.function call.args s.vm).detach = .ok x) :
    ∃ s', (Chronicle.start (Machine.interpreter fuel) s call waiting).outcome = .ok s' := by
  obtain ⟨⟨⟨result, vm⟩, e'⟩, hrun⟩ := Machine.call_finishes hle h.runs.bounded halone
    { s.engine with waiting }
  have hattend : (s.setEngine { s.engine with waiting }).attend
      ((Machine.interpreter fuel).call call.function call.args) = .ok (result, ⟨e', vm⟩) :=
    Session.attend_eq_ok.mpr hrun
  rw [Chronicle.outcome_start, hattend]
  exact ⟨_, rfl⟩

/-! ### Going on -/

/-- With a budget for each of them, and only then, all frames are taken back. -/
theorem Machine.rebuild_ends {n : Nat} {frames taken : List FrameId} {e : Engine}
    (hs : e.status = .resuming) :
    (∃ x, (rebuild n taken).run Engine.reply (e.handOver (frames.map .call)) = .ok x) ↔
      frames.length < n := by
  -- over the frames to take back; each costs one unit, and one more finds that there are no others
  induction frames generalizing n taken with
  | nil =>
    cases n with
    | zero => simp [rebuild]
    | succ n =>
      have hrunning : (e.handOver []).status = .running := by rw [Engine.handOver_nil hs]
      simp [rebuild, Engine.reply, Engine.takeResume_running hrunning]
  | cons f frames ih =>
    cases n with
    | zero => simp [rebuild]
    | succ n =>
      rw [List.map_cons, Engine.handOver_cons, List.length_cons, Nat.add_lt_add_iff_right]
      simp only [rebuild, Attended.run_ask, Engine.reply, Engine.takeResume_cons hs]
      exact ih

section Rebuilding

variable {inner : List FrameId} {outer : FrameId} (h : s.Resting (inner ++ [outer]))

include h

theorem Session.Resting.resuming : (s.engine.transition .resuming {}).status = .resuming := by
  rw [Engine.transition_resuming h.paused]

/-- The parked frames are taken back if and only if the budget is enough for all of them. -/
theorem Session.Resting.rebuild_ends (fuel : Nat) :
    (∃ x, (Machine.rebuild fuel [outer]).run Engine.reply
      ((s.engine.transition .resuming {}).handOver (inner.reverse.map .call)) = .ok x) ↔
        (inner ++ [outer]).length ≤ fuel := by
  rw [Machine.rebuild_ends h.resuming, List.length_append, List.length_reverse]
  exact Iff.rfl

/-- The frames taken back are live, innermost first. -/
theorem Session.Resting.live_rebuilt :
    ∀ f ∈ (outer :: inner.reverse).reverse, ∃ a, s.vm.frame? f = some a := by
  intro f hf
  exact h.runs.live f (by simpa using hf)

/-- An entry that comes to an end has taken all frames back and run them. -/
theorem Session.Resting.run_rebuilt {x : (RunResult × Machine) × Engine}
    (hrun : (Machine.runFrame fuel outer s.vm).run Engine.reply
      ((s.engine.transition .resuming {}).handOver (inner.reverse.map .call)) = .ok x) :
    (inner ++ [outer]).length ≤ fuel ∧
      (Machine.run fuel (inner ++ [outer]) s.vm).run Engine.reply s.engine.woken = .ok x := by
  have hstack : (outer :: inner.reverse).reverse = inner ++ [outer] := by simp
  obtain ⟨r, e₁, hrebuild, -⟩ :=
    Attended.run_bind_eq_ok.mp (Machine.runFrame_eq fuel outer s.vm ▸ hrun)
  refine ⟨(h.rebuild_ends fuel).mp ⟨_, hrebuild⟩, ?_⟩
  rw [← hstack]
  exact Machine.runFrame_run h.resuming (fun f hf => h.live_rebuilt f (List.mem_reverse.mpr hf)) hrun

end Rebuilding

/-- **What is visited when the parked frames are entered again**: the visits of their run, or none if
the budget is not enough to take them all back. -/
theorem visited_reentry (fuel : Nat) (h : s.Resting stack) (hne : stack ≠ []) :
    visited (Chronicle.reenter (Machine.interpreter fuel) s).happenings =
      if stack.length ≤ fuel then
        visits ((Machine.run fuel stack s.vm).consultations Engine.reply s.engine.woken)
      else [] := by
  obtain ⟨inner, outer, rfl⟩ : ∃ inner outer, stack = inner ++ [outer] :=
    ⟨_, _, (List.dropLast_append_getLast hne).symm⟩
  have hstack : (outer :: inner.reverse).reverse = inner ++ [outer] := by simp
  rw [visited_reenter fuel h]
  split
  · next henough =>
    obtain ⟨⟨r, e₁⟩, hrun⟩ := (h.rebuild_ends fuel).mpr henough
    rw [Machine.visits_runFrame h.resuming h.live_rebuilt hrun, hstack]
    rfl
  · next hshort =>
    -- nothing runs unless all frames are taken back
    cases hrun : (Machine.rebuild fuel [outer]).run Engine.reply
        ((s.engine.transition .resuming {}).handOver (inner.reverse.map .call)) with
    | error reason =>
      rw [Machine.runFrame_eq, Attended.consultations_bind, hrun, List.append_nil]
      exact (Machine.asksNoSite_rebuild fuel [outer]).visits _
    | ok x => exact absurd ((h.rebuild_ends fuel).mp ⟨x, hrun⟩) hshort

/-- The visits of a re-entry are no more than the instructions that are left. -/
theorem passing_reentry (fuel : Nat) (h : s.Resting stack) (hne : stack ≠ []) :
    Passing (Machine.run fuel stack s.vm).instructions
      (visited (Chronicle.reenter (Machine.interpreter fuel) s).happenings) := by
  rw [visited_reentry fuel h hne]
  split
  · exact Machine.run_visits_le h.runs hne
  · exact ⟨Nat.zero_le _, .nil⟩

/-- **The first visit when a session that stopped goes on** is that of the instruction at which it
stopped. -/
theorem Session.Stopped.first {callers : List FrameId} {v : Visit} (h : s.Stopped callers v)
    (fuel : Nat) :
    (visited (Chronicle.reenter (Machine.interpreter fuel) s).happenings).head? =
      if callers.length < fuel then some ⟨s.engine.woken, v.site⟩ else none := by
  have hroom : (v.site.frame :: callers).length ≤ fuel ↔ callers.length < fuel := Iff.rfl
  rw [visited_reentry fuel h.rests (by simp)]
  simp only [hroom]
  split
  · next henough =>
    obtain ⟨n, rfl⟩ : ∃ n, fuel = n + 1 := Nat.exists_eq_succ_of_ne_zero (Nat.ne_zero_of_lt henough)
    rw [Machine.visits_run_succ n h.rests.runs, h.ahead]
    rfl
  · rfl

/-- Between two stops an instruction ran. -/
theorem Session.Stopped.passed_ne_nil {callers : List FrameId} {v v' : Visit}
    (h : s.Stopped callers v) (hroom : callers.length < fuel) {passed : List Visit}
    (hsplit : visited (Chronicle.reenter (Machine.interpreter fuel) s).happenings = passed ++ [v'])
    (hheld : v'.Held) : passed ≠ [] := by
  rintro rfl
  have hhead := h.first fuel
  rw [if_pos hroom, hsplit] at hhead
  cases hhead
  exact h.passes hheld

/-- **A re-entry stops or ends.** -/
theorem reenter_reaches (h : s.Resting stack) (hne : stack ≠ [])
    (hreenter : (Chronicle.reenter (Machine.interpreter fuel) s).outcome = .ok s') :
    stack.length ≤ fuel ∧ Session.Reaches (fun n i => Walks n i stack s.vm)
      (fun y => ∃ k, (Machine.run k stack s.vm).detach = .ok y) s.engine.timers.length
      (visited (Chronicle.reenter (Machine.interpreter fuel) s).happenings) s' := by
  have hvisited := visited_reentry fuel h hne
  obtain ⟨inner, outer, rfl⟩ : ∃ inner outer, stack = inner ++ [outer] :=
    ⟨_, _, (List.dropLast_append_getLast hne).symm⟩
  obtain ⟨x, e', origin, rfl, hrun, hends⟩ := reenter_advances h hreenter
  -- the run that was asked about is that of the whole stack, once it is taken back
  obtain ⟨hroom, hrun⟩ := h.run_rebuilt hrun
  have hwoken := Engine.woken_eq h.paused
  have htimers : s.engine.woken.timers = s.engine.timers := by rw [hwoken]
  rw [hvisited, if_pos hroom, ← htimers]
  refine ⟨hroom, ?_⟩
  exact hends.reaches (Machine.run_walks h.runs hne hrun) h.runs hne (by rw [hwoken])
    (by rw [hwoken]) (fun _ _ _ _ hwalks => hwalks) origin

/-- A re-entry leaves the calls that wait. -/
theorem waiting_reenter (h : s.Resting stack) (hne : stack ≠ [])
    (hreenter : (Chronicle.reenter (Machine.interpreter fuel) s).outcome = .ok s') :
    s'.engine.waiting = s.engine.waiting := by
  obtain ⟨inner, outer, rfl⟩ : ∃ inner outer, stack = inner ++ [outer] :=
    ⟨_, _, (List.dropLast_append_getLast hne).symm⟩
  obtain ⟨x, e', origin, rfl, -, hends⟩ := reenter_advances h hreenter
  have hwoken := Engine.woken_eq h.paused
  have hwaiting : s.engine.woken.waiting = s.engine.waiting := by rw [hwoken]
  exact (hends.waiting (by rw [hwoken]) (by rw [hwoken]) origin).trans hwaiting

/-- **A re-entry comes to an outcome** if the run of the parked frames ends without a debugger, and
the budget is enough to take them all back. -/
theorem reenter_finishes {k : Nat} (hle : k ≤ fuel) (hroom : stack.length ≤ fuel)
    (h : s.Resting stack) (hne : stack ≠ []) {x : RunResult × Machine}
    (halone : (Machine.run k stack s.vm).detach = .ok x) :
    ∃ s', (Chronicle.reenter (Machine.interpreter fuel) s).outcome = .ok s' := by
  obtain ⟨inner, outer, rfl⟩ : ∃ inner outer, stack = inner ++ [outer] :=
    ⟨_, _, (List.dropLast_append_getLast hne).symm⟩
  obtain ⟨⟨r, e₁⟩, hrebuild⟩ := (h.rebuild_ends fuel).mpr hroom
  obtain ⟨rfl, rfl⟩ := Machine.run_rebuild h.resuming hrebuild
  obtain ⟨⟨⟨result, vm⟩, e'⟩, hrun⟩ := Machine.run_finishes hle h.runs hne halone
    ((s.engine.transition .resuming {}).handOver [])
  have hstack : inner.reverse.reverse ++ [outer] = inner ++ [outer] := by simp
  -- first the callers are taken back, then the run goes on with all of them
  have hentered : (Machine.runFrame fuel outer s.vm).run Engine.reply
      ((s.engine.transition .resuming {}).handOver (inner.reverse.map .call)) =
        .ok ((result, vm), e') := by
    rw [Machine.runFrame_eq]
    refine Attended.run_bind_eq_ok.mpr ⟨_, _, hrebuild, ?_⟩
    rw [hstack, Machine.enterAgain_live h.runs.live]
    exact hrun
  obtain ⟨origin, heq⟩ := reenter_snoc fuel h
  have hattend : (s.setEngine ((s.engine.transition .resuming {}).handOver
      (inner.reverse.map .call))).attend (Machine.runFrame fuel outer) = .ok (result, ⟨e', vm⟩) :=
    Session.attend_eq_ok.mpr hentered
  rw [heq, Chronicle.outcome_bind]
  simp only [Chronicle.attend, hattend]
  exact ⟨_, rfl⟩

end

end BytecodeDebugger
