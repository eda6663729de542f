import BytecodeDebugger.Proofs.Session.Entrances
import BytecodeDebugger.Proofs.Session.Pause

/-!
# Stops on entry

A launch asks for a stop before the first instruction by a pause, and a pause is only heard while the
program runs. So a launch into a running session stops on entry, always; a launch into a session that
stands still is the same with the request as without it. The call of the main function waits there, and
when it is made later it begins in the way in which the program is stepped at that moment: with stepping
on it stops at once, and with stepping off only a breakpoint stops its first instruction.

For that the session is followed from the launch to the call. It stays tidy, so that nothing is
remembered that could hold back a stop or ask for one, and its machine keeps the functions that it has,
so that the call that was queued still calls the main function (`Session.Carries`).

Main statements:

* `Session.Undertakes.begins` — every call that is made begins in a tidy session;
* `Session.stop_on_entry` — what becomes of a stop that is asked for at a launch.
-/

namespace BytecodeDebugger

/-- However a run ends, the machine has grown. -/
theorem Machine.Ends.grows {Alone : RunResult × Machine → Prop}
    {ground : SortedMap FrameId Activation} {m : Machine} {e e' : Engine} {x : RunResult × Machine}
    (h : Machine.Ends Alone ground m e x e') : m.Grows x.2 := by
  cases h with
  | held m' e₁ current callers a i runs grows => exact grows
  | ended x x₀ e₁ l' alone alike works frames bounded grows => exact grows

namespace Session

variable {c : Config} {m : Machine} {s s' : Session Machine} {fuel : Nat}

/-! ### What the machine keeps -/

/-- **A session at rest over a machine that grew out of another**, under the same configuration. -/
structure Grown (c : Config) (m : Machine) (s : Session Machine) : Prop where
  rests : ∃ stack, s.Resting stack
  grows : m.Grows s.vm
  config : s.engine.config = c

namespace Grown

theorem of_engine (h : s.Grown c m) {e : Engine} (hs : e.status = s.engine.status)
    (hp : e.parked = s.engine.parked) (hc : e.config = s.engine.config) :
    (s.setEngine e).Grown c m := by
  obtain ⟨stack, hstack⟩ := h.rests
  exact ⟨⟨stack, hstack.of_engine hs hp⟩, h.grows, hc.trans h.config⟩

theorem load {e : Engine} {vm : Machine} (h : Grown c m ⟨e, vm⟩) (chunk : Chunk) (file : String) :
    Grown c m ⟨e, (vm.load chunk file).2⟩ := by
  obtain ⟨stack, hstack⟩ := h.rests
  exact ⟨⟨stack, hstack.load chunk file⟩, h.grows.trans (.mint vm _), h.config⟩

theorem announced (h : s.Grown c m) (I : Interpreter Machine) (location : SourceLocation)
    (hsuspending : s.engine.status = .suspending) : (s.enterSuspended I location).Grown c m := by
  obtain ⟨stack, hstack⟩ := h.rests
  have hrests := hstack.enterSuspended (I := I) hsuspending location
  obtain ⟨payload, timers, heq⟩ := Session.Resting.enterSuspended_eq I hsuspending location
  refine ⟨⟨stack, hrests⟩, ?_, ?_⟩
  all_goals rw [heq]
  · exact h.grows
  · exact h.config

theorem started (h : s.Grown c m) {call : DeferredCall} {waiting : List DeferredCall}
    (hrunning : s.engine.status = .running)
    (hs' : (Chronicle.start (Machine.interpreter fuel) s call waiting).outcome = .ok s') :
    s'.Grown c m := by
  -- what a call does to the machine is up to the call; the configuration is not touched
  have hconfig := (served_start hs').config
  obtain ⟨stack, hstack⟩ := h.rests
  obtain ⟨rfl, hparked⟩ := hstack.unparked hrunning
  obtain ⟨x, e', rfl, -, hends⟩ := start_advances hstack hs'
  exact ⟨hends.resting hrunning hparked none, h.grows.trans hends.grows, hconfig.trans h.config⟩

theorem reentered (h : s.Grown c m)
    (hs' : (Chronicle.reenter (Machine.interpreter fuel) s).outcome = .ok s') : s'.Grown c m := by
  obtain ⟨stack, hstack⟩ := h.rests
  have hconfig : s'.engine.config = s.engine.config := by
    rw [(served_reenter hs').config, Engine.transition_resuming hstack.paused]
  rcases hstack.reentered hs' with ⟨rfl, rfl⟩ | ⟨_, x, e', origin, rfl, hends, hrunning, hparked⟩
  · exact ⟨⟨[], hstack.woken⟩, h.grows, hconfig.trans h.config⟩
  · exact ⟨hends.resting hrunning hparked origin, h.grows.trans hends.grows, hconfig.trans h.config⟩

/-- **Whatever is done, the machine only grows.** -/
theorem steady (fuel : Nat) (c : Config) (m : Machine) :
    Steady (Machine.interpreter fuel) True (fun _ => True) fun _ s => s.Grown c m where
  safe _ := trivial
  tweak h he := by
    obtain ⟨_, _, _, _, _, _, _, _, rfl, -⟩ := he
    exact h.of_engine rfl rfl rfl
  report _ h he := by
    obtain ⟨_, _, rfl, -⟩ := he
    exact h.of_engine rfl rfl rfl
  announce location h hsuspending := h.announced _ location hsuspending
  submit _ h := h.of_engine rfl rfl rfl
  start h hrunning _ := ⟨fun _ _ => trivial, fun _ hs' => h.started hrunning hs'⟩
  reenter h := ⟨fun _ _ => trivial, fun _ hs' => h.reentered hs'⟩

/-- A task leaves the machine grown, whatever becomes of it. -/
theorem ran (h : s.Grown c m) {task : TimedTask}
    (hs' : s.runTask (Machine.interpreter fuel) task = .ok s') : s'.Grown c m := by
  cases does_of_runTask hs' with
  | nothing => exact h
  | @announces location hsuspending => exact h.announced _ location hsuspending
  | steps _ hstep =>
    have hresumed : (s.command Stepping.stepIn).resumeThread (Machine.interpreter fuel) = .ok s' :=
      hstep
    rw [← Chronicle.outcome_resumeThread] at hresumed
    exact (((steady fuel c m).command (h := []) h Stepping.stepIn).ends s' hresumed).holds

/-- No call waits while the program runs, so that whatever is done the machine only grows. -/
theorem undertakeAll (h : s.Grown c m) (hidle : s.engine.status = .running → s.engine.waiting = [])
    {deeds : List Deed} (hs' : (Chronicle.undertakeAll fuel s deeds).outcome = .ok s') :
    s'.Grown c m :=
  (((steady fuel c m).undertakeAll (h := []) (fun chunk file h => h.load chunk file)
    ⟨h, hidle⟩ deeds).ends s' hs').holds

end Grown

/-- What a launch makes of a session before the main function is called. -/
def loading (s : Session Machine) (program : Program) : Session Machine :=
  ⟨(s.engine.fileLoaded program.file program.chunk.sourcePath fun _ => program.source).2,
    (s.vm.load program.chunk program.file).2⟩

/-! ### Calls that begin -/

/-- **A tidy session over a machine that grew out of another.** -/
structure Carries (c : Config) (m : Machine) (s : Session Machine) : Prop where
  tidies : s.Tidies
  grown : s.Grown c m

namespace Carries

theorem of_engine (h : s.Carries c m) {e : Engine} (hs : e.status = s.engine.status)
    (hp : e.parked = s.engine.parked) (hc : e.config = s.engine.config)
    (ht : e.stepping.target = s.engine.stepping.target) (hb : e.barriers = s.engine.barriers) :
    (s.setEngine e).Carries c m :=
  ⟨h.tidies.of_engine hs hp hc ht hb, h.grown.of_engine hs hp hc⟩

theorem popped (h : s.Carries c m) (timers : Timers) :
    (s.setEngine { s.engine with timers }).Carries c m :=
  h.of_engine rfl rfl rfl rfl rfl

/-- A command that aims at nothing or at what is parked. -/
theorem commanded (h : s.Carries c m) (f : Stepping → Stepping)
    (hf : ∀ entry, (f s.engine.stepping).target = some entry → entry ∈ s.engine.parked) :
    (s.command f).Carries c m :=
  ⟨h.tidies.commanded f hf, h.grown.of_engine rfl rfl rfl⟩

theorem aimless (h : s.Carries c m) {f : Stepping → Stepping}
    (hf : (f s.engine.stepping).target = none) : (s.command f).Carries c m := by
  refine h.commanded f fun entry hentry => ?_
  rw [hf] at hentry
  cases hentry

theorem of_commanded? (h : s.Carries c m) {op : Operation} (hs' : s.commanded? op = some s') :
    s'.Carries c m := by
  -- every command sets a target on a parked frame, or none
  cases op with
  | stepIn | resume =>
    cases hs'
    exact h.aimless rfl
  | stepOver =>
    cases hs'
    exact h.commanded _ fun _ hentry => Tidies.mem_parked (List.mem_of_head? hentry)
  | stepOut =>
    unfold commanded? at hs'
    dsimp only at hs'
    split at hs'
    · next caller hcaller =>
      cases hs'
      -- the caller to step out to is one of the parked frames
      refine h.commanded _ fun entry hentry => ?_
      cases hentry
      exact Tidies.mem_parked (List.mem_of_mem_tail (List.mem_of_find?_eq_some hcaller))
    · cases hs'
      exact h.aimless rfl
  | autoStep =>
    have htoggled : (s.command Stepping.toggleAuto).Carries c m :=
      h.of_engine rfl rfl rfl rfl rfl
    unfold commanded? at hs'
    dsimp only at hs'
    split at hs'
    · cases hs'
      exact htoggled.aimless rfl
    · cases hs'
  | _ => cases hs'

theorem started (h : s.Carries c m) {call : DeferredCall} {waiting : List DeferredCall}
    (hrunning : s.engine.status = .running)
    (hs' : (Chronicle.start (Machine.interpreter fuel) s call waiting).outcome = .ok s') :
    s'.Carries c m :=
  ⟨h.tidies.started hrunning hs', h.grown.started hrunning hs'⟩

theorem reentered (h : s.Carries c m)
    (hs' : (Chronicle.reenter (Machine.interpreter fuel) s).outcome = .ok s') : s'.Carries c m :=
  ⟨h.tidies.reentered hs', h.grown.reentered hs'⟩

theorem ran (h : s.Carries c m) {task : TimedTask}
    (hs' : s.runTask (Machine.interpreter fuel) task = .ok s') : s'.Carries c m :=
  ⟨h.tidies.ran ((Chronicle.outcome_runTask _ s task).trans hs'), h.grown.ran hs'⟩

/-- A launch leaves the frames alone until the main function is called. -/
theorem loaded (h : s.Carries c m) (program : Program) : (s.loading program).Carries c m := by
  have haside := Engine.aside_fileLoaded s.engine program.file program.chunk.sourcePath
    fun _ => program.source
  exact ⟨(h.tidies.aside haside).load _ _,
    (h.grown.of_engine haside.status haside.parked haside.config).load _ _⟩

theorem paused (h : s.Carries c m) : (s.setEngine s.engine.pause).Carries c m := by
  unfold Engine.pause
  split
  · exact h.of_engine rfl rfl rfl rfl rfl
  · exact h

end Carries

end Session

/-- **A call begins** in a tidy session that runs, over a machine that grew out of another. -/
def Entrance.Begins (c : Config) (m : Machine) (x : Entrance Machine) : Prop :=
  ∀ call, x.way = .call call → x.session.Carries c m ∧ x.session.engine.status = .running

namespace Session

variable {c : Config} {m : Machine} {s s' : Session Machine} {fuel : Nat} {x : Entrance Machine}

/-- **A tidy session prepares its calls.** -/
theorem prepares_begins (fuel : Nat) (c : Config) (m : Machine) :
    Prepares (Machine.interpreter fuel) (Carries c m) (Entrance.Begins c m) where
  call _ h hrunning := fun _ _ => ⟨h, hrunning⟩
  again _ _ := fun _ hway => by cases hway
  queued _ h := h.of_engine rfl rfl rfl rfl rfl
  popped timers h := h.popped timers
  commanded h hs' := h.of_commanded? hs'
  started h hrunning hs' := h.started hrunning hs'
  reentered h hs' := h.reentered hs'
  ran h hs' := h.ran hs'

/-- **Every call that is made in a tidy session begins in one.** -/
theorem Undertakes.begins {deed : Deed} (h : s.Carries c m) (hx : s.Undertakes fuel deed x) :
    x.Begins c m := by
  cases deed with
  | operation op => exact (prepares_begins fuel c m).enters h hx
  | launch program stopOnEntry =>
    cases stopOnEntry with
    | false => exact (prepares_begins fuel c m).enters (h.loaded program) hx
    | true => exact (prepares_begins fuel c m).enters (h.loaded program).paused hx

end Session

/-! ### How a call begins -/

/-- Without stepping and without a barrier only an armed breakpoint stops an instruction that admits
it. -/
theorem Engine.shouldSuspend_of_unstepped {e : Engine} (hs : e.status = .running)
    (hp : e.parked = []) (hoff : e.stepping.on = false) {site : Site}
    (hbarrier : e.barriers.get? site.frame = none) (hcoroutine : site.coroutineResuming = false) :
    e.shouldSuspend site = true ↔ site.opcode ∉ e.config.excludedOpcodes ∧
      e.breakpoints.stopsAt site.file site.line = true := by
  -- without stepping only breakpoints ask for a stop, and no barrier is in the way
  have hwants : e.wantsStop site = e.breakpoints.stopsAt site.file site.line := by
    unfold Engine.wantsStop Stepping.breaksIn
    rw [hoff]
    rfl
  have hbarred : e.isBarred site = false := by
    unfold Engine.isBarred
    rw [hbarrier]
    rfl
  unfold Engine.shouldSuspend
  rw [hwants, hs, hp, hbarred, hcoroutine]
  simp [and_comm]

namespace Entrance

variable {c : Config} {m : Machine} {fuel : Nat} {x : Entrance Machine}

/-- **How a call of a function begins**, in the way in which its session is stepped. The opcodes that
never stop are `codes`. -/
structure BeginsAsStepped (fuel : Nat) (x : Entrance Machine) (closure : Closure)
    (codes : List UInt8) : Prop where
  /-- with stepping on it is held up in its first frame, before an instruction runs that admits it -/
  stepped : x.session.engine.stepping.on = true →
    ∀ past v future, visits (x.questions (Machine.interpreter fuel)) = past ++ v :: future →
      v.site.frame = x.session.vm.nextFrame ∧ (v.Held ↔ v.site.opcode ∉ codes) ∧
        ∀ u ∈ past, u.site.opcode ∈ codes
  /-- with stepping off its first instruction is held up only by an armed breakpoint -/
  unstepped : x.session.engine.stepping.on = false →
    ∀ first v future, closure.proto.instructions[0]? = some first →
      visits (x.questions (Machine.interpreter fuel)) = v :: future →
      v.site = closure.entrance x.session.vm.nextFrame first ∧ (v.Held ↔ first.code ∉ codes ∧
        x.session.engine.breakpoints.stopsAt closure.file (closure.proto.lineAt 0) = true)

/-- **In a tidy session a call begins as its session is stepped.** -/
theorem Begins.asStepped (h : x.Begins c m) {call : DeferredCall} (hway : x.way = .call call)
    {closure : Closure} (hclosure : x.session.vm.callable? call.function = some (.closure closure))
    (hcall : Op.callCode ∉ c.excludedOpcodes) :
    x.BeginsAsStepped fuel closure c.excludedOpcodes := by
  obtain ⟨⟨htidies, hgrown⟩, hrunning⟩ := h call hway
  -- the entrance is a call made while the engine runs, with nothing parked and no frame barred
  obtain ⟨s, way⟩ := x
  obtain rfl : way = .call call := hway
  dsimp only at htidies hgrown hrunning hclosure
  obtain ⟨stack, hstack⟩ := htidies.rests
  obtain ⟨rfl, hparked⟩ := hstack.unparked hrunning
  have hexcluded : s.engine.config.excludedOpcodes = c.excludedOpcodes :=
    congrArg Config.excludedOpcodes hgrown.config
  constructor
  · intro hon past v future hvisits
    -- stepping makes the session alert, and then the call stops as one behind a pause does
    have halert : s.Alert c.excludedOpcodes :=
      ⟨hstack, hexcluded ▸ .of_tidy htidies.tidy hrunning hparked hon⟩
    have hcalled : visits ((Machine.call fuel call.function call.args s.vm).consultations Engine.reply
        { s.engine with waiting := s.engine.waiting }) = past ++ v :: future := hvisits
    exact halert.visits_call hcall hcalled
  · intro hoff first v future hfirst hvisits
    obtain rfl := Machine.first_visit_of_call hstack.runs.bounded hclosure hfirst hvisits
    refine ⟨rfl, ?_⟩
    rw [Visit.held_iff, ← hexcluded]
    exact Engine.shouldSuspend_of_unstepped hrunning hparked hoff
      ((htidies.tidy.forgotten hparked).2 _) rfl

end Entrance

namespace Session

variable {c : Config} {m : Machine} {s s' : Session Machine} {fuel : Nat}

/-! ### Launches -/

/-- The call of the main function of a program that is launched. -/
def mainCall (s : Session Machine) (program : Program) : DeferredCall :=
  ⟨.function (s.vm.load program.chunk program.file).1, []⟩

/-- The main function is there once the program is loaded. -/
theorem callable?_mainCall (s : Session Machine) (program : Program) :
    (s.vm.load program.chunk program.file).2.callable? (s.mainCall program).function =
      some (.closure ⟨program.chunk.main, [], program.file⟩) :=
  Array.getElem?_push_size

/-- Loading a program concerns none of these. -/
theorem engine_loading (s : Session Machine) (program : Program) :
    (s.loading program).engine.status = s.engine.status ∧
      (s.loading program).engine.stepping = s.engine.stepping ∧
      (s.loading program).engine.waiting = s.engine.waiting := by
  have haside := Engine.aside_fileLoaded s.engine program.file program.chunk.sourcePath
    fun _ => program.source
  refine ⟨haside.status, haside.stepping, ?_⟩
  obtain ⟨_, _, _, _, _, _, _, _, heq, -⟩ := Engine.tweaks_fileLoaded s.engine program.file
    program.chunk.sourcePath fun _ => program.source
  unfold loading
  dsimp only
  rw [heq]

/-- **A launch into a session that stands still** queues the call of the main function, and a stop that
it asks for is lost. -/
theorem launch_standing (hs : s.engine.status ≠ .running) (program : Program) (stopOnEntry : Bool) :
    s.undertake fuel (.launch program stopOnEntry) =
      .ok ((s.loading program).setEngine { (s.loading program).engine with
        waiting := (s.loading program).engine.waiting ++ [s.mainCall program] }) := by
  have hstatus : (s.loading program).engine.status ≠ .running := by
    rw [(s.engine_loading program).1]
    exact hs
  -- a pause is nothing to a program that stands still, so that both launches are the same
  have hpause : (s.loading program).engine.pause = (s.loading program).engine := if_neg hstatus
  -- the main function waits behind the calls that were there
  have hqueued : (s.loading program).execute (Machine.interpreter fuel)
      (s.mainCall program).function (s.mainCall program).args =
        .ok (.queued, (s.loading program).setEngine { (s.loading program).engine with
          waiting := (s.loading program).engine.waiting ++ [s.mainCall program] }) := if_neg hstatus
  have hlaunch : s.launch fuel program stopOnEntry =
      (s.loading program).execute (Machine.interpreter fuel) (s.mainCall program).function
        (s.mainCall program).args := by
    cases stopOnEntry with
    | false => rfl
    | true =>
      change Session.execute _ ((s.loading program).setEngine (s.loading program).engine.pause) _ _ = _
      rw [hpause]
      rfl
  change (s.launch fuel program stopOnEntry).map Prod.snd = _
  rw [hlaunch, hqueued]
  rfl

/-- **A launch into a tidy session that runs** stops on entry. -/
theorem Carries.launch_running (h : s.Carries c m) (hrunning : s.engine.status = .running)
    (hcall : Op.callCode ∉ c.excludedOpcodes) (program : Program) :
    (Chronicle.undertake fuel s (.launch program true)).StopsAtOnce
      ⟨program.chunk.main, [], program.file⟩ s.vm.nextFrame c.excludedOpcodes := by
  have hloaded : (s.loading program).Carries c m := h.loaded program
  have halert := hloaded.tidies.alert ((s.engine_loading program).1.trans hrunning)
  rw [hloaded.grown.config] at halert
  exact halert.stopsAtOnce hcall (s.callable?_mainCall program)

/-! ### The main result -/

/-- **A stop on entry is made where it can be asked for.** Whatever was done to a new session over a
machine without frames, if calls admit a stop and returns end steps: a launch that asks for a stop while
the program runs stops in the first frame of the main function, before an instruction runs there that
admits it. While the program stands still a launch that asks for one is the same as a launch that does
not. It changes nothing about the stepping, and its call waits; whatever is done then, when this call is
made it begins as the session is stepped at that moment. So it stops at once if stepping is on, and with
stepping off it runs its first instruction unless an armed breakpoint is on its line. -/
theorem stop_on_entry (fuel : Nat) (config : Config) (saved : SavedSession) (clock : Time)
    (vm : Machine) (hvm : vm.frames = .empty)
    (hclears : Op.returnCode ∈ config.stepClearingOpcodes)
    (hcall : Op.callCode ∉ config.excludedOpcodes) (deeds : List Deed) (s : Session Machine)
    (hs : Session.undertakeAll fuel ⟨.start config saved clock, vm⟩ deeds = .ok s)
    (program : Program) :
    (s.engine.status = .running →
      (Chronicle.undertake fuel s (.launch program true)).StopsAtOnce
        ⟨program.chunk.main, [], program.file⟩ s.vm.nextFrame config.excludedOpcodes) ∧
    (s.engine.status ≠ .running → ∃ s',
      (∀ stopOnEntry, s.undertake fuel (.launch program stopOnEntry) = .ok s') ∧
      s'.engine.status = s.engine.status ∧ s'.engine.stepping = s.engine.stepping ∧
      s'.engine.waiting = s.engine.waiting ++ [s.mainCall program] ∧
      ∀ (later : List Deed) (s₁ : Session Machine) (deed : Deed) (x : Entrance Machine),
        s'.undertakeAll fuel later = .ok s₁ → s₁.Undertakes fuel deed x →
        x.way = .call (s.mainCall program) →
          x.BeginsAsStepped fuel ⟨program.chunk.main, [], program.file⟩ config.excludedOpcodes) := by
  rw [← Chronicle.outcome_undertakeAll] at hs
  -- what is known of the session has grown since its start
  have hfresh : Grown config vm ⟨.start config saved clock, vm⟩ :=
    ⟨⟨[], .fresh config saved clock hvm⟩, .refl vm, rfl⟩
  have hcarries : s.Carries config s.vm := by
    have hgrown := hfresh.undertakeAll (fun _ => rfl) hs
    exact ⟨(Tidies.fresh hclears saved clock hvm).undertakeAll hs, hgrown.rests, .refl s.vm,
      hgrown.config⟩
  refine ⟨fun hrunning => hcarries.launch_running hrunning hcall program, fun hstanding => ?_⟩
  obtain ⟨hstatus, hstepping, hwaiting⟩ := s.engine_loading program
  refine ⟨_, launch_standing hstanding program, hstatus, hstepping,
    congrArg (· ++ [s.mainCall program]) hwaiting, ?_⟩
  intro later s₁ deed x hs₁ hx hway
  rw [← Chronicle.outcome_undertakeAll] at hs₁
  -- from the queued call on the machine keeps the main function
  have hloaded : (s.loading program).Carries config (s.loading program).vm :=
    ⟨(hcarries.loaded program).tidies, (hcarries.loaded program).grown.rests, .refl _,
      (hcarries.loaded program).grown.config⟩
  have hqueued : ((s.loading program).setEngine { (s.loading program).engine with
      waiting := (s.loading program).engine.waiting ++ [s.mainCall program] }).Carries config
        (s.loading program).vm := hloaded.of_engine rfl rfl rfl rfl rfl
  have hlater : s₁.Carries config (s.loading program).vm := by
    refine ⟨hqueued.tidies.undertakeAll hs₁, hqueued.grown.undertakeAll (fun hrunning => ?_) hs₁⟩
    exact absurd (hstatus.symm.trans hrunning) hstanding
  have hbegins := Undertakes.begins hlater hx
  have hmain := (hbegins _ hway).1.grown.grows.callable (s.callable?_mainCall program)
  exact hbegins.asStepped hway hmain hcall

/-- A program that returns at once. -/
def returning (file : String) : Program :=
  ⟨file, { main := { instructions := #[⟨30, 0, 1, 0⟩], lines := #[1] } }, .error ""⟩

/-- A program is launched with a stop while another one is stopped on entry. When that one goes on, the
call of the second begins without stepping. -/
theorem entry_behind_a_stop :
    Machine.initial.frames = .empty ∧ Op.returnCode ∈ ({} : Config).stepClearingOpcodes ∧
      Op.callCode ∉ ({} : Config).excludedOpcodes ∧ ∃ s s' x,
        Session.undertakeAll 10 ⟨.start {} {} 0, .initial⟩ [.launch (returning "a.json") true] =
          .ok s ∧ s.engine.status ≠ .running ∧
        s.undertake 10 (.launch (returning "b.json") true) = .ok s' ∧
        s'.Undertakes 10 (.operation .resume) x ∧
        x.way = .call (s.mainCall (returning "b.json")) ∧ x.session.engine.stepping.on = false ∧
        x.BeginsAsStepped 10 ⟨(returning "b.json").chunk.main, [], "b.json"⟩
          ({} : Config).excludedOpcodes := by
  -- the second launch waits until the first one is resumed
  obtain ⟨s, hs, hstanding, s', hs', x, hx, hway, hoff⟩ : ∃ s,
      Session.undertakeAll 10 ⟨.start {} {} 0, .initial⟩ [.launch (returning "a.json") true] =
        .ok s ∧ s.engine.status ≠ .running ∧ ∃ s',
      s.undertake 10 (.launch (returning "b.json") true) = .ok s' ∧ ∃ x,
      s'.Undertakes 10 (.operation .resume) x ∧
      x.way = .call (s.mainCall (returning "b.json")) ∧ x.session.engine.stepping.on = false :=
    ⟨_, rfl, by decide, _, rfl, _, .goesOn rfl (.drains rfl (.next rfl)), rfl, rfl⟩
  obtain ⟨-, hqueued⟩ := stop_on_entry 10 {} {} 0 .initial rfl (by decide) (by decide) _ s hs
    (returning "b.json")
  obtain ⟨s'', hlaunch, -, -, -, hbegins⟩ := hqueued hstanding
  obtain rfl : s'' = s' := Except.ok.inj ((hlaunch true).symm.trans hs')
  exact ⟨rfl, by decide, by decide, s, s'', x, hs, hstanding, hs', hx, hway, hoff,
    hbegins [] s'' _ x rfl hx hway⟩

/-- The main function of a program that was launched with a stop runs through, and nothing of it is held
up: the program was launched while another one stood still. -/
theorem entry_run_through : ∃ s s' other main,
    Session.undertakeAll 10 ⟨.start {} {} 0, .initial⟩ [.launch (returning "a.json") true] = .ok s ∧
    s.undertakeAll 10 [.launch (returning "b.json") true, .operation .resume] = .ok s' ∧
    visited (Chronicle.undertakeAll 10 s
      [.launch (returning "b.json") true, .operation .resume]).happenings = [other, main] ∧
    main.site.file = "b.json" ∧ main.site.frame ≠ other.site.frame ∧
    main.site.opcode ∉ ({} : Config).excludedOpcodes ∧ ¬main.Held ∧ s'.engine.status = .running := by
  -- both frames are visited, and neither is held up
  have hrun : (Session.undertakeAll 10 ⟨.start {} {} 0, .initial⟩
      [.launch (returning "a.json") true]).map (fun s =>
        ((visited (Chronicle.undertakeAll 10 s
          [.launch (returning "b.json") true, .operation .resume]).happenings).map fun v =>
            (v.site.frame, v.site.opcode, decide (v.site.file = "b.json"),
              v.engine.shouldSuspend v.site),
        (s.undertakeAll 10 [.launch (returning "b.json") true, .operation .resume]).map
          fun s' => s'.engine.status)) =
      .ok ([(0, 30, false, false), (1, 30, true, false)], .ok .running) := by
    decide +kernel
  obtain ⟨s, hs, hstate⟩ := Attended.exists_of_map_eq_ok hrun
  obtain ⟨hvisited, hends⟩ := Prod.mk.inj hstate
  obtain ⟨s', hs', hrunning⟩ := Attended.exists_of_map_eq_ok hends
  obtain ⟨other, rest, hall, hother, hrest⟩ := List.map_eq_cons_iff.mp hvisited
  obtain ⟨main, rest, rfl, hmain, hrest⟩ := List.map_eq_cons_iff.mp hrest
  cases List.map_eq_nil_iff.mp hrest
  simp only [Prod.mk.injEq] at hother hmain
  obtain ⟨hframe, -⟩ := hother
  obtain ⟨hframe', hopcode, hfile, hpasses⟩ := hmain
  refine ⟨s, s', other, main, hs, hs', hall, of_decide_eq_true hfile, ?_, ?_, ?_, hrunning⟩
  · rw [hframe, hframe']
    decide
  · rw [hopcode]
    decide
  · rw [Visit.held_iff, hpasses]
    decide

end Session

end BytecodeDebugger
