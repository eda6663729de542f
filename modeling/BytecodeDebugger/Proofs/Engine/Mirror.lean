import BytecodeDebugger.Proofs.Engine.Correlation

/-!
# What a client makes of the events

A client does not look into the engine. It receives events, and keeps a `Mirror` of what they tell:
the flag of every line, the switch of the breakpoints, the status with its payload, the error log and
the sources. `Mirror.receive` is all that it does with an event.

A change is *told* (`Engine.Tells`) if a client whose mirror was right before the change has a mirror
that is right after it, once it received what was announced in between. Main statement:

* `Evolves.tells` — whatever the engine does is told, however it came to be done. Some acts change two
  things and announce both, some change something that no client can see and announce nothing.
-/

namespace BytecodeDebugger

/-- **What a client knows.** -/
@[ext] structure Mirror where
  /-- the flag of a line in a file -/
  flag : String → Nat → Bool
  stops : Bool
  status : Status
  payload : Payload
  log : Array ErrorRecord
  loaded : SortedMap String LoadedSource

namespace Mirror

/-- What there is to know of the debugger at the moment. -/
def of (s : CurrentState) : Mirror where
  flag := s.breakpoints.flagAt
  stops := s.stopAtBreakpoints
  status := s.status
  payload := s.payload
  log := s.errorLog
  loaded := s.loaded

/-- **What an event tells.** -/
def receive (m : Mirror) : Event → Mirror
  | .breakpointsUpdated flags => { m with flag := flags.flagAt }
  | .breakpointUpdated file line isSet =>
    { m with flag := fun file' line' =>
        if file' = file ∧ line' = line then isSet else m.flag file' line' }
  | .stopAtBreakpointsUpdated stops => { m with stops }
  | .stateUpdated status payload => { m with status, payload }
  | .resumed => m
  | .error record => { m with log := m.log.push record }
  | .sourceLoaded jsonUrl url source =>
    { m with loaded := m.loaded.insert jsonUrl ⟨url, some source⟩ }
  | .sourceMissing jsonUrl url _ => { m with loaded := m.loaded.insert jsonUrl ⟨url, none⟩ }

/-- What events tell one after another. -/
def receiveAll (m : Mirror) (events : List Event) : Mirror := events.foldl receive m

theorem receiveAll_append (m : Mirror) (events later : List Event) :
    m.receiveAll (events ++ later) = (m.receiveAll events).receiveAll later := List.foldl_append

end Mirror

namespace Engine

variable {ticks : Time → Time → Prop} {e e₁ e' e'' : Engine}

/-- What there is to know of the engine. -/
abbrev view (e : Engine) : Mirror := .of e.currentState

/-- **A change is told to the clients.** -/
def Tells (e e' : Engine) : Prop :=
  ∃ later, e'.events.toList = e.events.toList ++ later ∧ e.view.receiveAll later = e'.view

namespace Tells

theorem refl (e : Engine) : e.Tells e := ⟨[], (List.append_nil _).symm, rfl⟩

theorem trans (h : e.Tells e') (h' : e'.Tells e'') : e.Tells e'' := by
  obtain ⟨later, hevents, hview⟩ := h
  obtain ⟨later', hevents', hview'⟩ := h'
  refine ⟨later ++ later', ?_, ?_⟩
  · rw [hevents', hevents, List.append_assoc]
  · rw [Mirror.receiveAll_append, hview, hview']

/-- What no client can see need not be announced. -/
theorem silent (hevents : e'.events = e.events) (hview : e'.view = e.view) : e.Tells e' :=
  ⟨[], by rw [hevents, List.append_nil], hview.symm⟩

/-- A change that an event tells. -/
theorem emit {event : Event} (hevents : e₁.events = e.events)
    (hview : e.view.receive event = e₁.view) : e.Tells (e₁.emit event) := by
  refine ⟨[event], ?_, hview⟩
  rw [← hevents]
  exact Array.toList_push

/-- The events that a subscription has still to receive are those that tell the change. -/
theorem pending (h : e.Tells e') : e.view.receiveAll (e'.events.toList.drop e.events.size) = e'.view := by
  obtain ⟨later, hevents, hview⟩ := h
  rw [hevents, ← Array.length_toList, List.drop_left]
  exact hview

/-- Nothing that was announced is taken back. -/
theorem size_events (h : e.Tells e') : e.events.size ≤ e'.events.size := by
  obtain ⟨later, hevents, -⟩ := h
  rw [← Array.length_toList, ← Array.length_toList, hevents, List.length_append]
  exact Nat.le_add_right _ _

end Tells

/-! ### Whatever the engine does is told -/

theorem tells_transition (e : Engine) (next : Status) (payload : Payload) :
    e.Tells (e.transition next payload) := by
  unfold transition
  dsimp only
  -- a change that is refused leaves no trace but a request
  split
  · exact .emit rfl rfl
  · exact .silent rfl rfl

theorem tells_toggleStops (e : Engine) : e.Tells e.toggleStops.2 := .emit rfl rfl

theorem tells_toggledBreakpoint (e : Engine) (file : String) (line : Nat) :
    e.Tells (e.toggledBreakpoint file line) := by
  refine toggledBreakpoint_relates (.refl e) .trans tells_toggleStops file line ?_
  -- the event of the flag says what the flag has become
  intro isSet breakpoints htoggle
  refine .emit rfl (Mirror.ext ?_ ?_ rfl rfl rfl rfl)
  · funext file' line'
    exact (Breakpoints.flagAt_toggle htoggle file' line').symm
  · exact (Breakpoints.stops_toggle htoggle).symm

theorem tells_fileLoaded (e : Engine) (jsonUrl : String) (path? : Option String)
    (fetch : String → Except String String) : e.Tells (e.fileLoaded jsonUrl path? fetch).2 := by
  -- that the file is listed now is not announced, since no flag is another
  have hlisted : e.Tells { e with breakpoints := e.breakpoints.ensureFile jsonUrl } := by
    refine .silent rfl (Mirror.ext ?_ ?_ rfl rfl rfl rfl)
    · funext file line
      exact Breakpoints.flagAt_ensureFile _ _ _ _
    · exact Breakpoints.stops_ensureFile _ _
  unfold fileLoaded
  dsimp only
  split
  · exact hlisted.trans (.emit rfl rfl)
  · exact hlisted.trans (.emit rfl rfl)

theorem tells_announce (e : Engine) (index : ErrorIndex) : e.Tells (e.announce index).2 := by
  obtain ⟨-, -, hlog⟩ := e.errors.correlate_spec index
  rw [announce_eq]
  -- an error that was announced before is told nobody again
  cases hline : (e.errors.correlate index).1 with
  | none =>
    rw [hline, Option.toList_none, List.append_nil] at hlog
    refine .silent rfl (Mirror.ext rfl rfl rfl rfl ?_ rfl)
    exact Array.toList_inj.mp hlog
  | some record =>
    rw [hline] at hlog
    have hview : e.view.receive (.error record) =
        ({ e with errors := (e.errors.correlate index).2 } : Engine).view := by
      refine Mirror.ext rfl rfl rfl rfl ?_ rfl
      refine Array.toList_inj.mp ?_
      exact Array.toList_push.trans hlog.symm
    show e.Tells (({ e with errors := (e.errors.correlate index).2 } : Engine).emit (.error record))
    exact .emit rfl hview

theorem Adjusts.tells (h : e.Adjusts e') : e.Tells e' := by
  cases h with
  | notes | retargets | commands => exact .silent rfl rfl
  | resumed => exact .emit rfl rfl
  | togglesStops => exact tells_toggleStops e
  | togglesBreakpoint file line => exact tells_toggledBreakpoint e file line
  | loads jsonUrl path? fetch => exact tells_fileLoaded e jsonUrl path? fetch

/-- **Every act is told.** -/
theorem Acts.tells (h : Acts ticks e e') : e.Tells e' := by
  cases h with
  | adjusts h => exact h.tells
  | goesOn next => exact tells_transition e next {}
  | suspends site =>
    have hparked : e.Tells { e.park (.call site.frame) with
        barriers := e.barriers.insert site.frame (locationOf site)
        epoch := e.epoch + 1 } := .silent rfl rfl
    exact (hparked.trans (tells_transition _ _ _)).trans (.silent rfl rfl)
  | creates message => exact .silent rfl rfl
  | logs index => exact tells_announce e index
  | drops => exact .silent rfl rfl
  | lands task timers _ location _ snapshot =>
    -- taking the notice off the timers is not told; the landing is
    obtain ⟨later, hland⟩ := land_eq { e with timers }
      { location := some location, snapshot := some snapshot }
    have hpopped : e.Tells { e with timers } := .silent rfl rfl
    rw [hland]
    exact (hpopped.trans (tells_transition _ _ _)).trans (.silent rfl rfl)
  | sets => exact .silent rfl rfl

/-- **Whatever the engine does is told.** -/
theorem Evolves.tells (h : Evolves ticks e e') : e.Tells e' :=
  h.relates .refl (fun _ _ _ => .trans) fun _ _ hact => hact.tells

end Engine

end BytecodeDebugger
