import BytecodeDebugger.Proofs.Machine.Visits
import BytecodeDebugger.Proofs.Session.Advance

/-!
# Where a session stops

Whatever is done to a session, the engine holds a frame up exactly where it should: stepping or an
armed breakpoint asks for it, the opcode admits it, and the frame has not stopped on this line
already and run nothing but this line since. The last condition speaks about everything that happened
to the frame since it was made, in however many operations. The conditions on the status and on the
parked frames, which the engine tests too, are always met when it is asked.

Main statements:

* `StopsRightly.steady` — what is proved about runs in `Machine.run_visits` holds over all
  operations;
* `Session.stops` — no stop is missed and none is spurious, at every instruction that is about to
  run; and what follows for the visits of a frame to a line: the first instruction that admits a stop
  stops an armed visit, and no visit stops twice.
-/

namespace BytecodeDebugger

/-- The visits so far. -/
def visited (h : List Happening) : List Visit :=
  h.filterMap fun
    | .consulted e (.before site) => some ⟨e, site⟩
    | _ => none

theorem visited_append (h h' : List Happening) : visited (h ++ h') = visited h ++ visited h' :=
  List.filterMap_append

theorem visited_consulted (questions : List (Engine × HookCall)) :
    visited (questions.map fun q => .consulted q.1 q.2) = visits questions := by
  unfold visited visits
  rw [List.filterMap_map]
  refine List.filterMap_congr fun q _ => ?_
  obtain ⟨e, call⟩ := q
  cases call <;> rfl

/-- The visits of a call that is started are those of its run. -/
theorem visited_start (fuel : Nat) (s : Session Machine) (call : DeferredCall)
    (waiting : List DeferredCall) :
    visited (Chronicle.start (Machine.interpreter fuel) s call waiting).happenings =
      visits ((Machine.call fuel call.function call.args s.vm).consultations Engine.reply
        { s.engine with waiting }) := by
  rw [Chronicle.happenings_start]
  exact visited_consulted _

/-- The visits of a re-entry are those of the run of the frames that were parked. -/
theorem visited_reenter (fuel : Nat) {s : Session Machine} {inner : List FrameId} {outer : FrameId}
    (h : s.Resting (inner ++ [outer])) :
    visited (Chronicle.reenter (Machine.interpreter fuel) s).happenings =
      visits ((Machine.runFrame fuel outer s.vm).consultations Engine.reply
        ((s.engine.transition .resuming {}).handOver (inner.reverse.map .call))) := by
  obtain ⟨origin, heq⟩ := reenter_snoc fuel h
  rw [heq, Chronicle.happenings_bind_pure]
  exact visited_consulted _

/-- What was decided by the history at every visit was decided so at any moment before. -/
theorem Rightly.of_moment {h h' moment : List Happening} (hr : Rightly (visited (h ++ h')))
    (hm : moment <+: h') : Rightly (visited (h ++ moment)) := by
  obtain ⟨rest, rfl⟩ := hm
  rw [← List.append_assoc, visited_append] at hr
  exact hr.of_append

/-! ### The invariant -/

/-- **A session at rest whose engine decided by the history so far**, and knows it. -/
structure StopsRightly (h : List Happening) (s : Session Machine) : Prop where
  rightly : Rightly (visited h)
  rests : ∃ stack, s.Resting stack
  tracks : Tracks (visited h) s.engine s.vm

namespace StopsRightly

variable {h : List Happening} {s s' : Session Machine} {e e' : Engine}

/-- A change of the engine that concerns neither the frames nor their barriers. -/
theorem of_engine (hs : StopsRightly h s) (hstatus : e.status = s.engine.status)
    (hparked : e.parked = s.engine.parked) (hbarriers : e.barriers = s.engine.barriers) :
    StopsRightly h (s.setEngine e) := by
  obtain ⟨stack, hstack⟩ := hs.rests
  exact ⟨hs.rightly, ⟨stack, hstack.of_engine hstatus hparked⟩, hs.tracks.of_barriers hbarriers⟩

/-- Dealing with the end of a run: a failure drops the barriers together with the frames. -/
theorem tracks_conclude {history : List Visit} {x : RunResult × Machine}
    (hk : Machine.Known history e x.2 (Machine.Failed x))
    (hframes : Machine.Failed x → x.2.frames = .empty) (origin : Option StackEntry) :
    Tracks history (e.conclude origin x.1) x.2 := by
  -- a run that ends leaves the barriers as they are, and a failure takes all of them away
  cases hx : x.1 with
  | ok outcome =>
    refine hk.tracks ?_
    rintro ⟨error, hfailed⟩
    rw [hx] at hfailed
    cases hfailed
  | error error =>
    obtain ⟨e', -, heq⟩ := e.fail_eq error origin
    refine .ended hk.used ?_ (hframes ⟨error, hx⟩)
    change (e.fail error origin).2.barriers = .empty
    rw [heq]

/-- A run that failed left no frames. -/
theorem frames_of_failed {Alone : RunResult × Machine → Prop} {m : Machine}
    {x : RunResult × Machine} (h : Machine.Ends Alone .empty m e x e') (hx : Machine.Failed x) :
    x.2.frames = .empty := by
  cases h with
  | held =>
    obtain ⟨error, hfailed⟩ := hx
    cases hfailed
  | ended x x₀ e₁ l' alone alike works frames => exact frames

/-- A stop that is announced leaves the frames and their barriers alone. -/
theorem announced (hs : StopsRightly h s) (I : Interpreter Machine) (location : SourceLocation)
    (hsuspending : s.engine.status = .suspending) : StopsRightly h (s.enterSuspended I location) := by
  obtain ⟨stack, hstack⟩ := hs.rests
  have hrests := hstack.enterSuspended (I := I) hsuspending location
  obtain ⟨payload, timers, heq⟩ := Session.Resting.enterSuspended_eq I hsuspending location
  refine ⟨hs.rightly, ⟨stack, hrests⟩, ?_⟩
  rw [heq]
  exact hs.tracks.of_barriers rfl

/-- Submitting a call visits nothing. -/
theorem submitted (hs : StopsRightly h s) (call : DeferredCall) :
    StopsRightly (h ++ [.submitted call])
      (s.setEngine { s.engine with waiting := s.engine.waiting ++ [call] }) := by
  have hsame : visited (h ++ [.submitted call]) = visited h := by
    rw [visited_append]
    exact List.append_nil _
  obtain ⟨stack, hstack⟩ := hs.rests
  refine ⟨?_, ⟨stack, hstack.of_engine rfl rfl⟩, ?_⟩
  · rw [hsame]
    exact hs.rightly
  · rw [hsame]
    exact hs.tracks.of_barriers rfl

/-- The visits of a call that is started continue the history. -/
theorem started (hs : StopsRightly h s) (fuel : Nat) (call : DeferredCall)
    (waiting : List DeferredCall) (hrunning : s.engine.status = .running) :
    (Chronicle.start (Machine.interpreter fuel) s call waiting).Meets (fun h => Rightly (visited h))
      h StopsRightly := by
  obtain ⟨stack, hstack⟩ := hs.rests
  -- a running engine has nothing parked, so that the call starts from an empty stack
  obtain ⟨rfl, hparked⟩ := hstack.unparked hrunning
  have hwatched : Machine.Watched (visited h) { s.engine with waiting }
      (Machine.call fuel call.function call.args s.vm) Prod.snd Machine.Failed :=
    Machine.call_visits hstack.runs.bounded hrunning hparked (hs.tracks.of_barriers rfl) hs.rightly
  have hvisited : visited (h ++
      (Chronicle.start (Machine.interpreter fuel) s call waiting).happenings) =
        visited h ++ visits ((Machine.call fuel call.function call.args s.vm).consultations
          Engine.reply { s.engine with waiting }) := by
    rw [visited_append, visited_start]
  -- what the call shows the hook is what its happenings add to the history
  have hrightly := hwatched.rightly
  rw [← hvisited] at hrightly
  refine ⟨fun moment hmoment => hrightly.of_moment hmoment, fun s' hs' => ?_⟩
  obtain ⟨x, e', rfl, hrun, hends⟩ := start_advances hstack hs'
  refine ⟨hrightly, hends.resting hrunning hparked none, ?_⟩
  rw [hvisited]
  exact tracks_conclude (hwatched.known x e' hrun) (frames_of_failed hends) none

/-- The visits of frames that are entered again continue the history. -/
theorem reentered (hs : StopsRightly h s) (fuel : Nat) :
    (Chronicle.reenter (Machine.interpreter fuel) s).Meets (fun h => Rightly (visited h)) h
      StopsRightly := by
  obtain ⟨stack, hstack⟩ := hs.rests
  have hwoken := Engine.woken_eq hstack.paused
  rcases List.eq_nil_or_concat stack with rfl | ⟨inner, outer, rfl⟩
  · -- nothing is parked, and nothing is visited
    rw [reenter_nil _ hstack.paused hstack.parked]
    refine .pure hs.rightly ⟨hs.rightly, ⟨[], hstack.woken⟩, hs.tracks.of_barriers ?_⟩
    change s.engine.woken.barriers = s.engine.barriers
    rw [hwoken]
  · rw [List.concat_eq_append] at hstack
    have hresuming := Engine.transition_resuming hstack.paused
    have hruns : s.vm.Runs .empty (outer :: inner.reverse).reverse := by
      simpa using hstack.runs
    -- the engine is still resuming while the inner frames are handed back to it
    have hwatched : Machine.Watched (visited h)
        ((s.engine.transition .resuming {}).handOver (inner.reverse.map .call))
        (Machine.runFrame fuel outer s.vm) Prod.snd Machine.Failed := by
      refine Machine.runFrame_visits hruns ?_ (hs.tracks.of_barriers ?_) hs.rightly <;>
        rw [hresuming]
    have hvisited : visited (h ++ (Chronicle.reenter (Machine.interpreter fuel) s).happenings) =
        visited h ++ visits ((Machine.runFrame fuel outer s.vm).consultations Engine.reply
          ((s.engine.transition .resuming {}).handOver (inner.reverse.map .call))) := by
      rw [visited_append, visited_reenter fuel hstack]
    have hrightly := hwatched.rightly
    rw [← hvisited] at hrightly
    refine ⟨fun moment hmoment => hrightly.of_moment hmoment, fun s' hs' => ?_⟩
    obtain ⟨x, e', origin, rfl, hrun, hends⟩ := reenter_advances hstack hs'
    refine ⟨hrightly, hends.resting (by rw [hwoken]) (by rw [hwoken]) origin, ?_⟩
    rw [hvisited]
    exact tracks_conclude (hwatched.known x e' hrun) (frames_of_failed hends) origin

/-- **Whatever is done, the engine decides by the history.** -/
theorem steady (fuel : Nat) :
    Steady (Machine.interpreter fuel) True (fun h => Rightly (visited h)) StopsRightly where
  safe hs := hs.rightly
  tweak hs he := by
    obtain ⟨_, _, _, _, _, _, _, _, rfl, -⟩ := he
    exact hs.of_engine rfl rfl rfl
  report _ hs he := by
    obtain ⟨_, _, rfl, -⟩ := he
    exact hs.of_engine rfl rfl rfl
  announce location hs hsuspending := hs.announced _ location hsuspending
  submit call hs := hs.submitted call
  start hs hrunning _ := hs.started fuel _ _ hrunning
  reenter hs := hs.reentered fuel

/-- **Whatever is done to a new session**, the engine decides by the history. -/
theorem undertakeAll (fuel : Nat) (config : Config) (saved : SavedSession) (clock : Time)
    {vm : Machine} (hvm : vm.frames = .empty) (deeds : List Deed) :
    (Chronicle.undertakeAll fuel ⟨.start config saved clock, vm⟩ deeds).Meets
      (fun h => Rightly (visited h)) [] (AtEase StopsRightly) := by
  have hfresh : StopsRightly [] ⟨.start config saved clock, vm⟩ :=
    ⟨.nil, ⟨[], .fresh config saved clock hvm⟩, .fresh rfl⟩
  have hload : ∀ {h : List Happening} {e : Engine} {vm : Machine} (chunk : Chunk) (file : String),
      StopsRightly h ⟨e, vm⟩ → StopsRightly h ⟨e, (vm.load chunk file).2⟩ := by
    intro h e vm chunk file hs
    obtain ⟨stack, hstack⟩ := hs.rests
    exact ⟨hs.rightly, ⟨stack, hstack.load chunk file⟩, hs.tracks.of_grows rfl (.mint vm _)⟩
  exact (steady fuel).undertakeAll hload ⟨hfresh, fun _ => rfl⟩ deeds

end StopsRightly

/-! ### Visits of a frame to a line -/

/-- **The frame has just come to this line**: the last instruction that it ran, if any, stands on
another line, and since then it was only asked about instructions that never stop. -/
def Visit.Arrives (v : Visit) (past : List Visit) : Prop :=
  ∃ before after, past = before ++ after ∧
    (before = [] ∨ ∃ before' w, before = before' ++ [w] ∧ w.site.frame = v.site.frame ∧ ¬w.Held ∧
      w.location ≠ v.location) ∧
    ∀ u ∈ after, u.site.frame = v.site.frame → u.site.opcode ∈ u.engine.config.excludedOpcodes

/-- An instruction that never stops is not held up. -/
theorem Visit.not_held_of_excluded {u : Visit} (h : u.site.opcode ∈ u.engine.config.excludedOpcodes) :
    ¬u.Held := by
  rw [Visit.held_iff]
  unfold Engine.shouldSuspend
  simp [h]

/-- A frame that has just come to a line does not linger there. -/
theorem Visit.Arrives.not_lingers {v : Visit} {past : List Visit} (h : v.Arrives past) :
    ¬Lingers past v.site.frame v.location := by
  obtain ⟨before, after, rfl, hbefore, hafter⟩ := h
  -- none of the visits since it came is a stop
  induction after using List.reverseRecOn with
  | nil =>
    rw [List.append_nil]
    rcases hbefore with rfl | ⟨before', w, rfl, hf, hw, hl⟩
    · exact BytecodeDebugger.not_lingers (by simp)
    · intro hlingers
      rw [← hf] at hlingers
      exact hl ((lingers_snoc_passed hw).mp hlingers).2
  | append_singleton after u ih =>
    have hrest := ih fun x hx => hafter x (List.mem_append_left _ hx)
    rw [← List.append_assoc, lingers_snoc]
    rintro (⟨hf, hu, -⟩ | ⟨hlingers, -⟩)
    · exact Visit.not_held_of_excluded (hafter u (by simp) hf) hu
    · exact hrest hlingers

/-! ### The main result -/

/-- **No stop is missed, and none is spurious.** Whatever is done to a new session over a machine
without frames, and also in an operation that does not end: an instruction that is about to run is
held up if and only if stepping or an armed breakpoint asks for it, its opcode admits a stop, and its
frame has not stopped on this line and run nothing but this line since. So a frame that comes to a
line with an armed breakpoint stops at the first instruction that admits a stop, and before it stops
there again it must have run an instruction of another line. -/
theorem Session.stops (fuel : Nat) (config : Config) (saved : SavedSession) (clock : Time)
    (vm : Machine) (hvm : vm.frames = .empty) (deeds : List Deed) (past : List Visit) (v : Visit)
    (future : List Visit)
    (hv : visited (Chronicle.undertakeAll fuel ⟨.start config saved clock, vm⟩ deeds).happenings =
      past ++ v :: future) :
    (v.Held ↔ v.Wanted ∧ v.site.opcode ∉ v.engine.config.excludedOpcodes ∧
      ¬Lingers past v.site.frame v.location) ∧
    (v.Wanted → v.site.opcode ∉ v.engine.config.excludedOpcodes → v.Arrives past → v.Held) ∧
    ∀ before u between, past = before ++ u :: between → u.Held → v.Held →
      u.site.frame = v.site.frame → u.location = v.location →
        ∃ w ∈ between, w.site.frame = v.site.frame ∧ ¬w.Held ∧ w.location ≠ v.location := by
  have hmeets := StopsRightly.undertakeAll fuel config saved clock hvm deeds
  have hrightly := hmeets.always _ (List.prefix_refl _)
  rw [List.nil_append] at hrightly
  have hstops : v.StopsAfter past := hrightly past v future hv
  refine ⟨hstops, fun hwanted hopcode harrives => ?_, ?_⟩
  · exact hstops.mpr ⟨hwanted, hopcode, harrives.not_lingers⟩
  · rintro before u between rfl hu hv hf hl
    have hlingers := (hstops.mp hv).2.2
    by_contra hnone
    -- without an instruction of another line in between the frame would still linger
    refine hlingers ⟨before, u, between, rfl, hf, hu, hl, fun w hw hwf hwh => ?_⟩
    by_contra hwl
    exact hnone ⟨w, hw, hwf, hwh, hwl⟩

/-- A step into a function: the caller is held up on the line of the call, then runs it, and the
function is held up on its first line. -/
theorem Session.stops_on_the_way_in :
    Machine.relay.frames = .empty ∧ ∃ caller again callee,
      visited (Chronicle.undertakeAll 10 ⟨.start {} {} 0, .relay⟩
        [.operation .pause, .operation (.submit ⟨.function 0, [.function 1]⟩),
          .operation .stepIn]).happenings = [caller, again, callee] ∧
      caller.Held ∧ ¬again.Held ∧ callee.Held ∧ callee.Wanted ∧
      ¬Lingers [caller, again] 1 callee.location := by
  have hvisited : (visited (Chronicle.undertakeAll 10 ⟨.start {} {} 0, .relay⟩
      [.operation .pause, .operation (.submit ⟨.function 0, [.function 1]⟩),
        .operation .stepIn]).happenings).map (fun v => (v.site.frame, v.engine.shouldSuspend v.site)) =
          [(0, true), (0, false), (1, true)] := by
    decide +kernel
  -- the three visits of the run, taken off the list one by one
  obtain ⟨caller, rest, hall, hcaller, hrest⟩ := List.map_eq_cons_iff.mp hvisited
  obtain ⟨again, rest, rfl, hagain, hrest⟩ := List.map_eq_cons_iff.mp hrest
  obtain ⟨callee, rest, rfl, hcallee, hrest⟩ := List.map_eq_cons_iff.mp hrest
  cases List.map_eq_nil_iff.mp hrest
  obtain ⟨hframe, hheld⟩ := Prod.mk.inj hcallee
  obtain ⟨hstops, -, -⟩ := Session.stops 10 {} {} 0 .relay rfl
    [.operation .pause, .operation (.submit ⟨.function 0, [.function 1]⟩), .operation .stepIn]
    [caller, again] callee [] hall
  have hcallee : callee.Held := (Visit.held_iff callee).mpr hheld
  obtain ⟨hwanted, -, hnot⟩ := hstops.mp hcallee
  rw [hframe] at hnot
  refine ⟨rfl, caller, again, callee, hall, ?_, ?_, hcallee, hwanted, hnot⟩
  · exact (Visit.held_iff caller).mpr (Prod.mk.inj hcaller).2
  · intro hc
    have hsuspend := (Visit.held_iff again).mp hc
    rw [(Prod.mk.inj hagain).2] at hsuspend
    cases hsuspend

end BytecodeDebugger
