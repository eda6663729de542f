import BytecodeDebugger.Proofs.Session.Advance
import Mathlib.Data.List.Nodup

/-!
# Sessions at rest

Four pieces of state have to agree whenever an operation has ended: the status, the parked frames,
the frames of the machine and the calls they wait for. `Session.AtRest` says how, in terms of what a
client can see; `Session.rest_state` proves it after any operations of a new session, launches
included.

The same theorem says that no change of status is ever refused. It rests on `Engine.Proper`: every
change that was asked for is allowed, asks for running only with nothing parked and for a stop only
with something parked, and was announced. The engine's answers to the interpreter keep this in every
state, so that it also holds in the middle of an operation that does not end; the changes that the
operations ask for themselves keep it because they begin in a session at rest.
-/

namespace BytecodeDebugger

/-! ### Changes of status -/

/-- **A change of status as it should be**: it is allowed, the program counts as running only when
nothing is parked, and as stopped only when something is. -/
structure StatusRequest.Proper (r : StatusRequest) : Prop where
  allowed : r.isAllowed = true
  running : r.new = .running → r.parked = 0
  stopped : r.new = .suspending ∨ r.new = .suspended → r.parked ≠ 0

/-- **All changes of status so far were as they should be**, and the statuses announced are, in order,
those that were asked for. -/
structure Engine.Proper (e : Engine) : Prop where
  requests : ∀ r ∈ e.requests, r.Proper
  announced : e.announced = e.requests.toList.map (·.new)

namespace Engine.Proper

variable {e e' : Engine}

theorem of_eq (h : e.Proper) (hr : e'.requests = e.requests) (ha : e'.announced = e.announced) :
    e'.Proper := by
  refine ⟨?_, ?_⟩
  · rw [hr]
    exact h.requests
  · rw [ha, hr]
    exact h.announced

theorem works (h : e.Proper) (hw : e.Works e') : e'.Proper :=
  h.of_eq hw.requests (congrArg (fun events => events.toList.filterMap Event.status?) hw.events)

/-- A change as it should be was made and announced. -/
theorem push (h : e.Proper) {r : StatusRequest} (hr : r.Proper) {payload : Payload}
    (hrequests : e'.requests = e.requests.push r)
    (hevents : e'.events = e.events.push (.stateUpdated r.new payload)) : e'.Proper := by
  refine ⟨fun r' hmem => ?_, ?_⟩
  · rw [hrequests] at hmem
    rcases Array.mem_push.mp hmem with hmem | rfl
    · exact h.requests r' hmem
    · exact hr
  · -- one request, and one announcement of it
    have hannounced : e'.announced = e.announced ++ [r.new] := by
      unfold Engine.announced
      rw [hevents, Array.toList_push, List.filterMap_append]
      rfl
    rw [hannounced, h.announced, hrequests, Array.toList_push, List.map_append]
    rfl

theorem transition (h : e.Proper) {next : Status} (payload : Payload)
    (hr : StatusRequest.Proper ⟨e.status, next, e.parked.length⟩) :
    (e.transition next payload).Proper := by
  rw [transition_allowed hr.allowed]
  exact h.push hr rfl rfl

/-- Handing back an entry asks for running only with the last one. -/
theorem handOver (h : e.Proper) (hs : e.status = .resuming) (inner : List Resumable) :
    (e.handOver inner).Proper := by
  cases inner with
  | nil =>
    -- the last entry: nothing is parked any more, as running requires
    rw [handOver_nil hs]
    exact h.push (r := ⟨.resuming, .running, 0⟩) ⟨rfl, fun _ => rfl, by simp⟩ rfl rfl
  | cons entry inner => exact h.of_eq rfl rfl

/-- **No answer of the engine asks for an improper change**, in whatever state it is. -/
theorem reply (call : HookCall) (h : e.Proper) : (Engine.reply call e).2.Proper := by
  cases call with
  | before site =>
    unfold Engine.reply
    dsimp only
    split
    · next hsuspend =>
      have hrunning : e.status = .running := by
        unfold shouldSuspend at hsuspend
        grind
      -- the frame is parked before the change is asked for
      have hrequest : StatusRequest.Proper ⟨e.status, .suspending, e.parked.length + 1⟩ := by
        rw [hrunning]
        exact ⟨rfl, by simp, by simp⟩
      have hparked : ({ e.park (.call site.frame) with
          barriers := e.barriers.insert site.frame (locationOf site)
          epoch := e.epoch + 1 } : Engine).Proper := h.of_eq rfl rfl
      exact (hparked.transition { location := some (locationOf site) } hrequest).of_eq rfl rfl
    · exact h.of_eq rfl rfl
  | after frame pc opcode failure => cases failure <;> exact h.of_eq rfl rfl
  | park entry => exact h.of_eq rfl rfl
  | takeResume =>
    -- only a session that is being resumed hands entries back
    change e.takeResume.2.Proper
    unfold takeResume
    split
    · next hs =>
      split
      · exact h
      · exact h.handOver hs _
    · exact h
  | isResuming => exact h
  | raise message => exact h.of_eq rfl rfl

theorem fail (h : e.Proper) (error : ExecError) (origin : Option StackEntry) :
    (e.fail error origin).2.Proper := by
  obtain ⟨e', ⟨_, _, rfl, ha⟩, heq⟩ := e.fail_eq error origin
  rw [heq]
  exact h.of_eq rfl ha

theorem conclude (h : e.Proper) (origin : Option StackEntry) (result : RunResult) :
    (e.conclude origin result).Proper := by
  cases result with
  | ok outcome => exact h
  | error error => exact h.fail error origin

/-- A session that is resumed asks for a change that is allowed. -/
theorem resuming (h : e.Proper) (hs : e.status ≠ .resuming) :
    (e.transition .resuming {}).Proper := by
  refine h.transition {} ⟨?_, by simp, by simp⟩
  change e.status.mayBecome .resuming = true
  cases hstatus : e.status with
  | resuming => exact absurd hstatus hs
  | running | suspending | suspended => rfl

theorem woken (h : e.Proper) (hs : e.status ≠ .resuming) : e.woken.Proper := by
  refine (h.resuming hs).handOver ?_ []
  rw [transition_resuming hs]

/-- A run under the debugger asks for changes as they should be. -/
theorem ends {Alone : RunResult × Machine → Prop} {m : Machine} {x : RunResult × Machine}
    (h : e.Proper) (hends : Machine.Ends Alone .empty m e x e') (hs : e.status = .running)
    (hp : e.parked = []) (origin : Option StackEntry) : (e'.conclude origin x.1).Proper := by
  refine conclude ?_ origin x.1
  cases hends with
  | held m' e₁ current callers a i runs grows works held rest =>
    -- the run worked until it was held up with one frame parked
    have hworks : e₁.Proper := h.works works
    rw [hold_eq (works.status.trans hs) (works.parked.trans hp)]
    exact hworks.push (r := ⟨.running, .suspending, 1⟩) ⟨rfl, by simp, by simp⟩ rfl rfl
  | ended x x₀ e₁ l' alone alike works => exact (h.works works).of_eq rfl rfl

end Engine.Proper

/-- Every engine that was asked something had only changes of status as they should be. -/
def ProperThroughout (h : List Happening) : Prop :=
  ∀ e question, Happening.consulted e question ∈ h → e.Proper

namespace ProperThroughout

variable {h : List Happening}

theorem snoc (hh : ProperThroughout h) {x : Happening}
    (hx : ∀ e question, x ≠ .consulted e question) : ProperThroughout (h ++ [x]) := by
  intro e question hmem
  rcases List.mem_append.mp hmem with hmem | hmem
  · exact hh e question hmem
  · exact absurd (List.mem_singleton.mp hmem).symm (hx e question)

theorem consulted (hh : ProperThroughout h) {questions : List (Engine × HookCall)}
    (hq : ∀ q ∈ questions, q.1.Proper) :
    ProperThroughout (h ++ questions.map fun q => .consulted q.1 q.2) := by
  intro e question hmem
  rcases List.mem_append.mp hmem with hmem | hmem
  · exact hh e question hmem
  · obtain ⟨q, hq', heq⟩ := List.mem_map.mp hmem
    cases heq
    exact hq q hq'

/-- Running the interpreter keeps changes of status as they should be. -/
theorem attend {σ α : Type} {s : Session σ} {entry : σ → Attended (α × σ)}
    (hh : ProperThroughout h) (hs : s.engine.Proper) :
    (Chronicle.attend s entry).Meets ProperThroughout h fun h p =>
      ProperThroughout h ∧ p.2.engine.Proper := by
  have hrun : (Chronicle.attend s entry).Meets ProperThroughout h fun h' p =>
      p.2.engine.Proper ∧ ∃ questions : List (Engine × HookCall),
        h' = h ++ questions.map fun q => .consulted q.1 q.2 :=
    .attend (P := Engine.Proper) (fun call _ he => he.reply call) hs fun _ hq => hh.consulted hq
  exact ⟨hrun.always, fun p hp => ⟨hrun.always _ (List.prefix_refl _), (hrun.ends p hp).1⟩⟩

end ProperThroughout

/-! ### The invariant -/

/-- **A session at rest, with changes of status as they should be.** -/
structure RestsProperly (h : List Happening) (s : Session Machine) : Prop where
  throughout : ProperThroughout h
  proper : s.engine.Proper
  rests : ∃ stack, s.Resting stack

namespace RestsProperly

/-- A change of the engine that concerns neither the status nor the frames. -/
theorem of_engine {h : List Happening} {s : Session Machine} (hs : RestsProperly h s) {e : Engine}
    (hstatus : e.status = s.engine.status) (hparked : e.parked = s.engine.parked)
    (hrequests : e.requests = s.engine.requests) (hannounced : e.announced = s.engine.announced) :
    RestsProperly h (s.setEngine e) := by
  obtain ⟨stack, hstack⟩ := hs.rests
  exact ⟨hs.throughout, hs.proper.of_eq hrequests hannounced, stack,
    hstack.of_engine hstatus hparked⟩

/-- A stop that is announced was asked for with something parked. -/
theorem announced {h : List Happening} {s : Session Machine} (hs : RestsProperly h s)
    (I : Interpreter Machine) (location : SourceLocation) (hsuspending : s.engine.status = .suspending) :
    RestsProperly h (s.enterSuspended I location) := by
  obtain ⟨stack, hstack⟩ := hs.rests
  have hrests := hstack.enterSuspended (I := I) hsuspending location
  refine ⟨hs.throughout, ?_, stack, hrests⟩
  -- something is parked, since the program does not run
  have hparked : s.engine.parked.length ≠ 0 := by
    intro hzero
    have hnil : stack = [] := by
      rw [hstack.parked] at hzero
      simpa using hzero
    have hrunning := hstack.running.mpr hnil
    rw [hsuspending] at hrunning
    cases hrunning
  obtain ⟨payload, timers, heq⟩ := Session.Resting.enterSuspended_eq I hsuspending location
  rw [heq]
  exact hs.proper.push (r := ⟨.suspending, .suspended, s.engine.parked.length⟩)
    ⟨rfl, by simp, fun _ => hparked⟩ rfl rfl

/-- A call is started at rest, and comes to rest. -/
theorem started {h : List Happening} {s : Session Machine} (hs : RestsProperly h s) (fuel : Nat)
    (call : DeferredCall) (waiting : List DeferredCall) (hrunning : s.engine.status = .running) :
    (Chronicle.start (Machine.interpreter fuel) s call waiting).Meets ProperThroughout h
      RestsProperly := by
  obtain ⟨stack, hstack⟩ := hs.rests
  obtain ⟨rfl, hparked⟩ := hstack.unparked hrunning
  have hthroughout := hs.throughout.snoc (x := .started call) (by simp)
  have hproper : ({ s.engine with waiting } : Engine).Proper := hs.proper.of_eq rfl rfl
  -- on the way, also when the call does not end
  have hchain : (Chronicle.start (Machine.interpreter fuel) s call waiting).Meets
      ProperThroughout h fun h _ => ProperThroughout h := by
    refine .bind (.note (Q := fun past _ => past = h ++ [.started call]) hs.throughout hthroughout
      rfl) ?_
    rintro past - rfl
    refine (ProperThroughout.attend hthroughout hproper).bind fun past p hp => ?_
    obtain ⟨result, s₁⟩ := p
    cases result <;> exact .pure hp.1 hp.1
  refine ⟨hchain.always, fun s' hs' => ?_⟩
  obtain ⟨x, e', rfl, -, hends⟩ := start_advances hstack hs'
  exact ⟨hchain.ends _ hs', hproper.ends hends hrunning hparked none,
    hends.resting hrunning hparked none⟩

/-- The parked frames are entered again at rest, and come to rest. -/
theorem reentered {h : List Happening} {s : Session Machine} (hs : RestsProperly h s) (fuel : Nat) :
    (Chronicle.reenter (Machine.interpreter fuel) s).Meets ProperThroughout h RestsProperly := by
  obtain ⟨stack, hstack⟩ := hs.rests
  have hproper := hs.proper.woken hstack.paused
  have hwoken := Engine.woken_eq hstack.paused
  rcases List.eq_nil_or_concat stack with rfl | ⟨inner, outer, rfl⟩
  · -- nothing is parked
    rw [reenter_nil _ hstack.paused hstack.parked]
    exact .pure hs.throughout ⟨hs.throughout, hproper, [], hstack.woken⟩
  · rw [List.concat_eq_append] at hstack
    -- the engine that is asked first has handed back the outermost frame already
    have hpopped : ((s.engine.transition .resuming {}).handOver
        (inner.reverse.map .call)).Proper := by
      refine (hs.proper.resuming hstack.paused).handOver ?_ _
      rw [Engine.transition_resuming hstack.paused]
    obtain ⟨origin, heq⟩ := reenter_snoc fuel hstack
    have hchain : (Chronicle.reenter (Machine.interpreter fuel) s).Meets ProperThroughout h
        fun h _ => ProperThroughout h := by
      rw [heq]
      exact (ProperThroughout.attend hs.throughout hpopped).bind fun past p hp => .pure hp.1 hp.1
    refine ⟨hchain.always, fun s' hs' => ?_⟩
    obtain ⟨x, e', origin, rfl, -, hends⟩ := reenter_advances hstack hs'
    have hrunning : s.engine.woken.status = .running := by rw [hwoken]
    have hparked : s.engine.woken.parked = [] := by rw [hwoken]
    exact ⟨hchain.ends _ hs', hproper.ends hends hrunning hparked origin,
      hends.resting hrunning hparked origin⟩

/-- **Whatever is done, the session comes to rest properly.** -/
theorem steady (fuel : Nat) :
    Steady (Machine.interpreter fuel) True ProperThroughout RestsProperly where
  safe hs := hs.throughout
  tweak hs he := by
    obtain ⟨_, _, _, _, _, _, _, _, rfl, ha⟩ := he
    exact hs.of_engine rfl rfl rfl ha
  report _ hs he := by
    obtain ⟨_, _, rfl, ha⟩ := he
    exact hs.of_engine rfl rfl rfl ha
  announce location hs hsuspending := hs.announced _ location hsuspending
  submit := by
    intro h s call hs
    obtain ⟨stack, hstack⟩ := hs.rests
    exact ⟨hs.throughout.snoc (by simp), hs.proper.of_eq rfl rfl, stack,
      hstack.of_engine rfl rfl⟩
  start hs hrunning _ := hs.started fuel _ _ hrunning
  reenter hs := hs.reentered fuel

/-- **A new session over a machine without frames comes to rest properly**, whatever is done to it. -/
theorem undertaken (fuel : Nat) (config : Config) (saved : SavedSession) (clock : Time) {vm : Machine}
    (hvm : vm.frames = .empty) (deeds : List Deed) :
    (Chronicle.undertakeAll fuel ⟨.start config saved clock, vm⟩ deeds).Meets ProperThroughout []
      (AtEase RestsProperly) := by
  have hfresh : RestsProperly [] ⟨.start config saved clock, vm⟩ :=
    ⟨fun _ _ hmem => absurd hmem List.not_mem_nil, ⟨fun r hr => by simp [Engine.start] at hr, rfl⟩, [],
      .fresh config saved clock hvm⟩
  refine (steady fuel).undertakeAll ?_ ⟨hfresh, fun _ => rfl⟩ deeds
  intro h e vm chunk file hs
  obtain ⟨stack, hstack⟩ := hs.rests
  exact ⟨hs.throughout, hs.proper, stack, hstack.load chunk file⟩

end RestsProperly

/-! ### The main result -/

/-- **A session at rest, as a client sees it.** The resume stack lists the parked entries, innermost
first. -/
structure Session.AtRest (s : Session Machine) : Prop where
  status : s.engine.status = .running ∨ s.engine.status = .suspending ∨
    s.engine.status = .suspended
  running : s.engine.status = .running ↔ s.engine.resumeStack = []
  frames : ∀ entry ∈ s.engine.resumeStack, ∃ frame, entry = .call frame
  nodup : s.engine.resumeStack.Nodup
  /-- no frame is leaked, and none is missing -/
  live : ∀ frame, (∃ a, s.vm.frame? frame = some a) ↔ .call frame ∈ s.engine.resumeStack
  /-- every entry but the innermost waits for the call of the entry just inside it -/
  waits : s.engine.resumeStack.IsChain fun inner outer =>
    ∃ callee caller, inner = .call callee ∧ outer = .call caller ∧ s.vm.Waits caller callee

theorem Session.Resting.atRest {s : Session Machine} {stack : List FrameId} (h : s.Resting stack) :
    s.AtRest := by
  have hresume : s.engine.resumeStack = stack.map Resumable.call := by
    unfold Engine.resumeStack
    rw [h.parked, List.reverse_reverse]
  refine ⟨?_, ?_, ?_, ?_, fun frame => ?_, ?_⟩
  · cases hs : s.engine.status with
    | resuming => exact absurd hs h.paused
    | running => exact .inl rfl
    | suspending => exact .inr (.inl rfl)
    | suspended => exact .inr (.inr rfl)
  · -- the program runs just when nothing is parked
    rw [hresume, h.running, List.map_eq_nil_iff]
  · rw [hresume]
    intro entry hentry
    obtain ⟨frame, -, rfl⟩ := List.mem_map.mp hentry
    exact ⟨frame, rfl⟩
  · rw [hresume]
    exact List.Nodup.map (fun f g hfg => Resumable.call.inj hfg) h.runs.nodup
  · rw [hresume]
    constructor
    · rintro ⟨a, ha⟩
      -- a live frame that is not parked would be none of the ground's
      by_contra hmem
      have hnot : frame ∉ stack := fun hf => hmem (List.mem_map.mpr ⟨frame, hf, rfl⟩)
      rw [h.runs.rest frame hnot] at ha
      cases ha
    · intro hmem
      obtain ⟨f, hf, heq⟩ := List.mem_map.mp hmem
      cases heq
      exact h.runs.live frame hf
  · rw [hresume]
    refine (List.isChain_map Resumable.call).mpr (h.runs.chain.imp fun callee caller hw => ?_)
    exact ⟨callee, caller, rfl, rfl, hw⟩

/-- **Sessions come to rest.** After anything that was done to a new session over a machine without
frames, the status, the parked frames, the frames of the machine and the calls they wait for agree.
No change of status was refused on the way, and statuses were announced only as they should be; the
latter holds at every moment, also in an operation that does not end. -/
theorem Session.rest_state (fuel : Nat) (config : Config) (saved : SavedSession) (clock : Time)
    (vm : Machine) (hvm : vm.frames = .empty) (deeds : List Deed) :
    ProperThroughout
        (Chronicle.undertakeAll fuel ⟨.start config saved clock, vm⟩ deeds).happenings ∧
      ∀ s, Session.undertakeAll fuel ⟨.start config saved clock, vm⟩ deeds = .ok s →
        s.AtRest ∧ s.engine.Proper := by
  have hmeets := RestsProperly.undertaken fuel config saved clock hvm deeds
  refine ⟨hmeets.always _ (List.prefix_refl _), fun s hs => ?_⟩
  rw [← Chronicle.outcome_undertakeAll] at hs
  obtain ⟨hrest, -⟩ := hmeets.ends s hs
  obtain ⟨stack, hstack⟩ := hrest.rests
  exact ⟨hstack.atRest, hrest.proper⟩

/-- A program stopped in a function that it called: the caller waits for the call. -/
theorem Session.rest_in_a_callee :
    Machine.relay.frames = .empty ∧
      ∃ s, Session.undertakeAll 10 ⟨.start {} {} 0, .relay⟩
          [.operation .pause, .operation (.submit ⟨.function 0, [.function 1]⟩),
            .operation .stepIn] = .ok s ∧
        s.engine.resumeStack = [.call 1, .call 0] ∧ s.vm.Waits 0 1 := by
  obtain ⟨-, hrest⟩ := Session.rest_state 10 {} {} 0 .relay rfl
    [.operation .pause, .operation (.submit ⟨.function 0, [.function 1]⟩), .operation .stepIn]
  -- the step into the callee parks both frames, the inner one first
  have hstack : (Session.undertakeAll 10 ⟨.start {} {} 0, .relay⟩
      [.operation .pause, .operation (.submit ⟨.function 0, [.function 1]⟩),
        .operation .stepIn]).map (fun s => s.engine.resumeStack) = .ok [.call 1, .call 0] := by
    decide +kernel
  obtain ⟨s, hs, hentries⟩ := Attended.exists_of_map_eq_ok hstack
  have hwaits := (hrest s hs).1.waits
  rw [hentries] at hwaits
  obtain ⟨⟨callee, caller, hcallee, hcaller, hw⟩, -⟩ := List.isChain_cons_cons.mp hwaits
  cases hcallee
  cases hcaller
  exact ⟨rfl, s, hs, hentries, hw⟩

end BytecodeDebugger
