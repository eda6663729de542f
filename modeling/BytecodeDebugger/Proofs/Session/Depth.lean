import BytecodeDebugger.Proofs.Machine.Confinement
import BytecodeDebugger.Proofs.Session.Evolution
import BytecodeDebugger.Proofs.Session.Stops
import BytecodeDebugger.Proofs.Session.Undisturbed

/-!
# Steps respect the depth of calls

A step over a call stops no deeper than it began, and a step out of a call stops at least one call
further out. This is clear as long as the frame that the step aims at is there. It also holds when
this frame returned, fell off its end or went down with a failure, for whatever calls are made
afterwards: by the callers, by calls that waited, or by calls that the host submits before the next
command. Two things are excepted. A breakpoint stops anywhere, and a `CLOSE` in the frame that is
aimed at ends the step although the frame goes on.

Main statements:

* `Stepped.undisturbed` — what `Machine.run_course` says about one run holds until the next command;
* `Session.depth_respected` — the next stop of a step over, and of a step out.
-/

namespace BytecodeDebugger

open Chronicle

/-! ### Dealing with the end of a run -/

theorem Engine.Steps.conclude {e : Engine} (h : e.Steps) (origin : Option StackEntry)
    (result : RunResult) : (e.conclude origin result).Steps := by
  cases result with
  | ok outcome => exact h
  | error error =>
    obtain ⟨e', ⟨_, _, rfl, -⟩, heq⟩ := e.fail_eq error origin
    change (e.fail error origin).2.Steps
    rw [heq]
    exact h.of_eq rfl rfl rfl

/-- With the frames of a run that failed its target and its barriers are forgotten. -/
theorem Machine.Settled.conclude {target : FrameId} {outer : List FrameId} {history : List Visit}
    {e : Engine} {x : RunResult × Machine} (h : Machine.Settled target outer history e x)
    (origin : Option StackEntry) :
    StepCourse target outer history (e.conclude origin x.1) x.2 [] := by
  obtain ⟨result, m⟩ := x
  cases result with
  | ok outcome =>
    rcases h with h | ⟨⟨error, hfailed⟩, -⟩
    · exact h
    · cases hfailed
  | error error =>
    obtain ⟨e', ⟨errors, events, rfl, -⟩, heq⟩ := e.fail_eq error origin
    change StepCourse target outer history (e.fail error origin).2 m []
    rw [heq]
    -- a failure drops the target and all barriers, so that nothing is confined any more
    have hgoes : (∀ w ∈ history, ¬w.Held) → StepCourse target outer history
        { e with errors, events, stepping := e.stepping.dropTarget, barriers := .empty } m [] :=
      fun hunheld => .goes hunheld (.of_aimless rfl) fun f _ => SortedMap.get?_empty f
    rcases h with h | ⟨-, hunheld⟩
    · cases h with
      | closed before u after split unheld passed frame code =>
        exact .closed before u after split unheld passed frame code
      | goes unheld => exact hgoes unheld
      | stopped past v split unheld held stands innermost depth =>
        exact .stopped past v split unheld held stands innermost depth
    · exact hgoes hunheld

/-! ### The invariant -/

/-- **A session since a step began** that aims at a frame with `outer` below it. -/
structure Stepped (target : FrameId) (outer : List FrameId) (h : List Happening)
    (s : Session Machine) : Prop where
  steps : s.engine.Steps
  rests : ∃ stack, s.Resting stack
  course : StepCourse target outer (visited h) s.engine s.vm []

namespace Stepped

variable {target : FrameId} {outer : List FrameId} {h : List Happening} {s s' : Session Machine}
  {fuel : Nat}

theorem aside (hs : Stepped target outer h s) {e : Engine} (he : s.engine.Aside e) :
    Stepped target outer h (s.setEngine e) := by
  obtain ⟨stack, hstack⟩ := hs.rests
  refine ⟨hs.steps.of_eq ?_ ?_ he.config, ⟨stack, hstack.of_engine he.status he.parked⟩, ?_⟩
  · exact congrArg Stepping.on he.stepping
  · exact congrArg Stepping.auto he.stepping
  · exact hs.course.of_eq (fun hrunning => he.status.symm.trans hrunning) he.parked he.barriers
      (congrArg Stepping.target he.stepping) (Nat.le_refl _)

theorem announced (hs : Stepped target outer h s) (I : Interpreter Machine)
    (location : SourceLocation) (hsuspending : s.engine.status = .suspending) :
    Stepped target outer h (s.enterSuspended I location) := by
  obtain ⟨stack, hstack⟩ := hs.rests
  have hrests := hstack.enterSuspended (I := I) hsuspending location
  obtain ⟨payload, timers, heq⟩ := Session.Resting.enterSuspended_eq I hsuspending location
  rw [heq] at hrests ⊢
  refine ⟨hs.steps.of_eq rfl rfl rfl, ⟨stack, hrests⟩, ?_⟩
  exact hs.course.of_eq (fun hrunning => by cases hrunning) rfl rfl rfl (Nat.le_refl _)

/-- A call that is made begins where no step stands any more. -/
theorem started (hs : Stepped target outer h s) {call : DeferredCall} {waiting : List DeferredCall}
    (hrunning : s.engine.status = .running)
    (hs' : (Chronicle.start (Machine.interpreter fuel) s call waiting).outcome = .ok s') :
    Stepped target outer
      (h ++ (Chronicle.start (Machine.interpreter fuel) s call waiting).happenings) s' := by
  obtain ⟨stack, hstack⟩ := hs.rests
  obtain ⟨rfl, hparked⟩ := hstack.unparked hrunning
  obtain ⟨x, e', rfl, hrun, hends⟩ := start_advances hstack hs'
  have hsteps : ({ s.engine with waiting } : Engine).Steps := hs.steps.of_eq rfl rfl rfl
  -- the call begins with the queue shortened, on a stack of its own
  have hcourse : StepCourse target outer (visited h) { s.engine with waiting } s.vm [] :=
    hs.course.of_eq id rfl rfl rfl (Nat.le_refl _)
  have hsettled := Machine.call_course (e := { s.engine with waiting }) hstack.runs.bounded hrunning
    hparked hsteps hcourse hrun
  have hsteps' : e'.Steps := Attended.run_preserves (fun call _ h => h.reply call) _ hsteps hrun
  refine ⟨hsteps'.conclude none x.1, hends.resting hrunning hparked none, ?_⟩
  rw [visited_append, visited_start]
  exact hsettled.conclude none

/-- **Until the next command** a step takes its course. -/
theorem undisturbed (fuel : Nat) (target : FrameId) (outer : List FrameId) :
    Undisturbed (Machine.interpreter fuel) (Stepped target outer) where
  steps hs := ⟨hs.steps.on, hs.steps.manual⟩
  aside hs he := hs.aside he
  announce location hs hsuspending := hs.announced _ location hsuspending
  submit := by
    intro h s call hs
    refine ⟨hs.steps, hs.rests, ?_⟩
    -- a call that only waits visits nothing
    have hsame : visited (h ++ [.submitted call]) = visited h := by
      rw [visited_append]
      exact List.append_nil _
    rw [hsame]
    exact hs.course
  start hs hrunning hs' := hs.started hrunning hs'

/-- **A step begins** by entering the parked frames again. -/
theorem resumed {inner : List FrameId} (hrests : s.Resting (inner ++ target :: outer))
    (hsteps : s.engine.Steps) (haims : s.engine.stepping.target = some (.call target))
    (hunbarred : Unbarred s.engine s.vm) :
    (Chronicle.resumeThread (Machine.interpreter fuel) s).Meets (fun _ => True) []
      (Stepped target outer) := by
  obtain ⟨frames, outermost, hstack⟩ : ∃ frames outermost,
      inner ++ target :: outer = frames ++ [outermost] :=
    ⟨_, _, (List.dropLast_append_getLast (by simp)).symm⟩
  have hrests' : s.Resting (frames ++ [outermost]) := hstack ▸ hrests
  have hreversed : (outermost :: frames.reverse).reverse = frames ++ [outermost] := by simp
  have hresuming := Engine.transition_resuming hrests.paused
  have hwoken := Engine.woken_eq hrests.paused
  refine Meets.bind (Q := Stepped target outer) ⟨fun _ _ => trivial, fun s' hs' => ?_⟩
    fun _ _ hs => (undisturbed fuel target outer).drainCalls hs _
  obtain ⟨x, e', origin, rfl, hrun, hends⟩ := reenter_advances hrests' hs'
  have hruns : s.vm.Runs .empty (outermost :: frames.reverse).reverse := by
    rw [hreversed]
    exact hrests'.runs
  have hsteps₁ : (s.engine.transition .resuming {}).Steps := hsteps.transition _ _
  -- when the frames are back, the target lies where it did
  have hcourse : StepCourse target outer [] s.engine.woken s.vm (outermost :: frames.reverse).reverse := by
    rw [hreversed, ← hstack]
    refine .goes (by simp) (.within inner rfl ?_) ?_
    · rw [hwoken]
      exact haims
    · rw [hwoken]
      exact hunbarred
  have hsettled := Machine.runFrame_course hruns (by rw [hresuming]) hsteps₁ hcourse hrun
  -- taking frames back does not touch the steps
  have hhanded : ((s.engine.transition .resuming {}).handOver (frames.reverse.map .call)).Steps := by
    cases frames.reverse with
    | nil =>
      rw [List.map_nil, Engine.handOver_nil (by rw [hresuming])]
      exact hsteps₁.of_eq rfl rfl rfl
    | cons f frames => exact hsteps₁.of_eq rfl rfl rfl
  have hsteps' : e'.Steps := Attended.run_preserves (fun call _ h => h.reply call) _ hhanded hrun
  refine ⟨hsteps'.conclude origin x.1, hends.resting (by rw [hwoken]) (by rw [hwoken]) origin, ?_⟩
  rw [List.nil_append, visited_reenter fuel hrests']
  exact hsettled.conclude origin

end Stepped

/-! ### The main result -/

/-- **The next stop after a command is at most this deep**: if no further command is given, and
unless a breakpoint asks for the stop or the entry that the command aims at ran a `CLOSE` before it,
the session stands at this stop with at most so many entries parked. -/
def Session.StopsWithin (fuel : Nat) (s : Session Machine) (command : Operation) (aim : Resumable)
    (depth : Nat) : Prop :=
  ∀ (deeds : List Deed) (s' : Session Machine) (past : List Visit) (v : Visit) (future : List Visit),
    (∀ deed ∈ deeds, deed.directs = false) →
    s.undertakeAll fuel (.operation command :: deeds) = .ok s' →
    visited (Chronicle.undertakeAll fuel s (.operation command :: deeds)).happenings =
      past ++ v :: future →
    (∀ u ∈ past, ¬u.Held) → v.Held → ¬v.AtBreakpoint →
    (∀ u ∈ past, aim = .call u.site.frame → u.site.opcode ≠ Op.closeCode) →
    s'.engine.innermost? = some (.call v.site.frame) ∧ s'.engine.resumeStack.length ≤ depth

/-- A command that aims at a frame stops no deeper than this frame is. -/
theorem Session.Resting.stopsWithin {fuel : Nat} {s : Session Machine} {inner outer : List FrameId}
    {target : FrameId} (hrests : s.Resting (inner ++ target :: outer))
    (hunbarred : Unbarred s.engine s.vm)
    (hexcluded : s.engine.config.excludedOpcodes = ({} : Config).excludedOpcodes)
    (hclearing : s.engine.config.stepClearingOpcodes = ({} : Config).stepClearingOpcodes)
    {command : Operation}
    (hcommand : Chronicle.perform (Machine.interpreter fuel) s command =
      Chronicle.resumeThread (Machine.interpreter fuel)
        (s.command fun _ => ⟨true, some (.call target), false⟩)) :
    s.StopsWithin fuel command (.call target) (outer.length + 1) := by
  intro deeds s' past v future hdeeds hs' hv hpast hheld hline hclose
  set stepping : Session Machine := s.command fun _ => ⟨true, some (.call target), false⟩
  have hresting : stepping.Resting (inner ++ target :: outer) := hrests.of_engine rfl rfl
  have hresumed : (Chronicle.resumeThread (Machine.interpreter fuel) stepping).Meets (fun _ => True) []
      (Stepped target outer) :=
    Stepped.resumed hresting ⟨rfl, rfl, hexcluded, hclearing⟩ rfl hunbarred
  have hload : ∀ {h : List Happening} {e : Engine} {vm : Machine} (chunk : Chunk) (file : String),
      Stepped target outer h ⟨e, vm⟩ → Stepped target outer h ⟨e, (vm.load chunk file).2⟩ := by
    intro h e vm chunk file hs
    obtain ⟨stack, hstack⟩ := hs.rests
    exact ⟨hs.steps, ⟨stack, hstack.load chunk file⟩, hs.course.of_eq id rfl rfl rfl (Nat.le_refl _)⟩
  -- the command resumes on the course, and the deeds behind it keep to it
  have hall : (Chronicle.undertakeAll fuel s (.operation command :: deeds)).Meets (fun _ => True) []
      (Stepped target outer) := by
    change (Chronicle.perform (Machine.interpreter fuel) s command >>= fun s =>
      Chronicle.undertakeAll fuel s deeds).Meets _ _ _
    rw [hcommand]
    exact hresumed.bind fun _ _ hs => (Stepped.undisturbed fuel target outer).undertakeAll hload hs hdeeds
  rw [← Chronicle.outcome_undertakeAll] at hs'
  have hcourse := (hall.ends s' hs').course
  rw [List.nil_append, hv] at hcourse
  have hdepth := hcourse.depth_of_first hpast hheld hline fun u hu hframe => hclose u hu (by rw [hframe])
  unfold Engine.resumeStack
  rw [List.length_reverse]
  exact hdepth

/-- **Steps respect the depth of calls.** Whatever was done to a new session over a machine without
frames, with the default opcode lists: a step over stops next no deeper than the entry that it began
in, and a step out no deeper than the entry around it. -/
theorem Session.depth_respected (fuel : Nat) (config : Config) (saved : SavedSession) (clock : Time)
    (vm : Machine) (hvm : vm.frames = .empty)
    (hexcluded : config.excludedOpcodes = ({} : Config).excludedOpcodes)
    (hclearing : config.stepClearingOpcodes = ({} : Config).stepClearingOpcodes)
    (deeds : List Deed) (s : Session Machine)
    (hs : Session.undertakeAll fuel ⟨.start config saved clock, vm⟩ deeds = .ok s) :
    (∀ entry outer, s.engine.resumeStack = entry :: outer →
      s.StopsWithin fuel .stepOver entry s.engine.resumeStack.length) ∧
    ∀ inner entry outer, s.engine.resumeStack = inner :: entry :: outer →
      s.StopsWithin fuel .stepOut entry (s.engine.resumeStack.length - 1) := by
  have hconfig : s.engine.config = config := (Session.evolves_undertakeAll hs).config
  rw [← Chronicle.outcome_undertakeAll] at hs
  have hrightly := ((StopsRightly.undertakeAll fuel config saved clock hvm deeds).ends s hs).holds
  obtain ⟨stack, hstack⟩ := hrightly.rests
  have hunbarred := hrightly.tracks.unbarred
  rw [← hconfig] at hexcluded hclearing
  -- what is parked is a stack of frames, the innermost of which is the target of a step over
  have hresume : s.engine.resumeStack = stack.map Resumable.call := by
    unfold Engine.resumeStack
    rw [hstack.parked, List.reverse_reverse]
  rw [hresume]
  constructor
  · intro entry outer hsplit
    obtain ⟨target, frames, rfl, rfl, rfl⟩ := List.map_eq_cons_iff.mp hsplit
    have hrests : s.Resting ([] ++ target :: frames) := hstack
    rw [List.length_map]
    refine hrests.stopsWithin hunbarred hexcluded hclearing ?_
    unfold Chronicle.perform Engine.innermost?
    rw [hresume]
    rfl
  · intro inner entry outer hsplit
    obtain ⟨current, frames, rfl, rfl, hrest⟩ := List.map_eq_cons_iff.mp hsplit
    obtain ⟨target, frames, rfl, rfl, rfl⟩ := List.map_eq_cons_iff.mp hrest
    have hrests : s.Resting ([current] ++ target :: frames) := hstack
    -- a step out is aimed at the caller of the innermost frame
    have henclosing : s.engine.enclosingCall? = some (.call target) := by
      unfold Engine.enclosingCall?
      rw [hresume]
      rfl
    rw [List.length_map]
    refine hrests.stopsWithin hunbarred hexcluded hclearing ?_
    unfold Chronicle.perform Chronicle.stepOut
    rw [henclosing]
    rfl

/-- A step out of a function: it returns, and its caller is held up on the next line. -/
theorem Session.stops_further_out :
    Machine.relay.frames = .empty ∧ ∃ s s',
      Session.undertakeAll 10 ⟨.start {} {} 0, .relay⟩
        [.operation .pause, .operation (.submit ⟨.function 0, [.function 1]⟩),
          .operation .stepIn] = .ok s ∧
      s.engine.resumeStack = [.call 1, .call 0] ∧
      s.undertakeAll 10 [.operation .stepOut] = .ok s' ∧
      s'.engine.innermost? = some (.call 0) ∧ s'.engine.resumeStack.length ≤ 1 := by
  -- the callee ends, and the caller is held up behind its call
  have hrun : (Session.undertakeAll 10 ⟨.start {} {} 0, .relay⟩
      [.operation .pause, .operation (.submit ⟨.function 0, [.function 1]⟩),
        .operation .stepIn]).map (fun s => (s.engine.resumeStack,
          (s.undertakeAll 10 [.operation .stepOut]).map (fun _ => ()),
          (visited (Chronicle.undertakeAll 10 s [.operation .stepOut]).happenings).map fun v =>
            (v.site.frame, v.engine.shouldSuspend v.site,
              v.engine.breakpoints.flags.flagAt v.site.file v.site.line))) =
      .ok ([.call 1, .call 0], .ok (), [(1, false, false), (0, true, false)]) := by
    decide +kernel
  obtain ⟨s, hs, hstate⟩ := Attended.exists_of_map_eq_ok hrun
  obtain ⟨hresume, hstate⟩ := Prod.mk.inj hstate
  obtain ⟨hends, hvisited⟩ := Prod.mk.inj hstate
  obtain ⟨s', hs', -⟩ := Attended.exists_of_map_eq_ok hends
  obtain ⟨callee, rest, hall, hcallee, hrest⟩ := List.map_eq_cons_iff.mp hvisited
  obtain ⟨caller, rest, rfl, hcaller, hrest⟩ := List.map_eq_cons_iff.mp hrest
  cases List.map_eq_nil_iff.mp hrest
  obtain ⟨hcalleeFrame, hcalleeState⟩ := Prod.mk.inj hcallee
  obtain ⟨hcallerFrame, hcallerState⟩ := Prod.mk.inj hcaller
  obtain ⟨hheld, hflag⟩ := Prod.mk.inj hcallerState
  have hout := (Session.depth_respected 10 {} {} 0 .relay rfl rfl rfl
    [.operation .pause, .operation (.submit ⟨.function 0, [.function 1]⟩), .operation .stepIn] s
    hs).2 _ _ _ hresume
  obtain ⟨hinnermost, hdepth⟩ := hout [] s' [callee] caller [] (by simp) hs' hall
    (fun u hu => by
      rw [List.mem_singleton.mp hu, Visit.held_iff, (Prod.mk.inj hcalleeState).1]
      simp)
    ((Visit.held_iff caller).mpr hheld)
    (fun hline => by
      rw [hline.2] at hflag
      cases hflag)
    (fun u hu haim => by
      rw [List.mem_singleton.mp hu, hcalleeFrame] at haim
      cases haim)
  rw [hcallerFrame] at hinnermost
  rw [hresume] at hdepth
  exact ⟨rfl, s, s', hs, hresume, hs', hinnermost, hdepth⟩

end BytecodeDebugger
