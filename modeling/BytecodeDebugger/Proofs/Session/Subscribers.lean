import BytecodeDebugger.Proofs.Engine.Mirror
import BytecodeDebugger.Proofs.Session.Notices

/-!
# What subscribers know

Whoever subscribes is sent the breakpoints first and then every event. Since all that the engine does
is told (`Evolves.tells`), this is enough to follow a session over any interpreter: main statement,
`Session.events_complete`.
-/

namespace BytecodeDebugger

/-- What a client makes of a new session before it heard anything; what it takes the breakpoints for
does not matter. -/
def Mirror.unheard (flag : String → Nat → Bool) (stops : Bool) : Mirror :=
  { flag, stops, status := .running, payload := {}, log := #[], loaded := .empty }

namespace Engine

variable {ticks : Time → Time → Prop} {e e' : Engine}

/-- **The priming events** tell the breakpoints, and nothing else. -/
theorem receiveAll_subscribe (m : Mirror) (e : Engine) :
    m.receiveAll (e.subscribe.pending e.events) =
      { m with flag := e.view.flag, stops := e.view.stops } := by
  -- nothing has happened since, so that only the priming events are pending
  have hpending : e.subscribe.pending e.events = e.subscribe.priming := by
    unfold Subscription.pending subscribe
    dsimp only
    rw [← Array.length_toList, List.drop_length, List.append_nil]
  rw [hpending]
  rfl

/-- A subscriber that knew everything but the breakpoints knows everything from then on. -/
theorem Evolves.receiveAll_subscribe (h : Evolves ticks e e') (flag : String → Nat → Bool)
    (stops : Bool) :
    ({ e.view with flag, stops } : Mirror).receiveAll (e.subscribe.pending e'.events) = e'.view := by
  have hpending : e.subscribe.pending e'.events =
      e.subscribe.priming ++ e'.events.toList.drop e.events.size := rfl
  have hprimed : ({ e.view with flag, stops } : Mirror).receiveAll e.subscribe.priming = e.view := rfl
  rw [hpending, Mirror.receiveAll_append, hprimed]
  exact h.tells.pending

end Engine

/-- Whatever was seen before, what is new is sent last. -/
theorem Subscription.pending_append {s : Subscription} {events events' : Array Event}
    {later : List Event} (hseen : s.seen ≤ events.size)
    (hlater : events'.toList = events.toList ++ later) :
    s.pending events' = s.pending events ++ later := by
  unfold pending
  rw [hlater, List.drop_append_of_le_length (by rwa [Array.length_toList]), List.append_assoc]

namespace Session

variable {σ : Type} {I : Interpreter σ} {s s' : Session σ}

/-- **All subscribers are sent the same** from a moment on, whenever they subscribed before it. -/
theorem sent_alike {before after : List Operation} {s₀ s₁ : Session σ}
    (hall : s₀.performAll I (before ++ after) = .ok s) (hbefore : s₀.performAll I before = .ok s₁)
    {events : List Event} (hevents : s'.engine.events.toList = s.engine.events.toList ++ events) :
    s₁.engine.subscribe.pending s'.engine.events =
      s₁.engine.subscribe.pending s.engine.events ++ events := by
  rw [performAll_append, hbefore] at hall
  have hafter : Engine.Evolves (fun _ _ => True) s₁.engine s.engine :=
    evolves_performAll hall (isChain_true _)
  exact Subscription.pending_append hafter.tells.size_events hevents

/-- **The events are complete**, for every interpreter and whatever is done to a new session. A client
that subscribed at the start and receives all events knows exactly the present state: this holds at
every moment, also in an operation that does not end, and after every operation. The events that a
later subscription begins with tell the breakpoints; with the rest of the state of that moment, its
client knows the present state from then on. And of what is done from a moment on, all that subscribed
until then are sent the same events in the same order. -/
theorem events_complete (I : Interpreter σ) (config : Config) (saved : SavedSession) (clock : Time)
    (vm : σ) (ops : List Operation) :
    (∀ e call, .consulted e call ∈
        (Chronicle.performAll I ⟨.start config saved clock, vm⟩ ops).happenings →
      ∀ flag stops, (Mirror.unheard flag stops).receiveAll
        ((Engine.start config saved clock).subscribe.pending e.events) = .of e.currentState) ∧
    ∀ s, performAll I ⟨.start config saved clock, vm⟩ ops = .ok s →
      (∀ flag stops, (Mirror.unheard flag stops).receiveAll
        ((Engine.start config saved clock).subscribe.pending s.engine.events) =
          .of s.engine.currentState) ∧
      (∀ m : Mirror, m.receiveAll (s.engine.subscribe.pending s.engine.events) =
        { m with
          flag := (Mirror.of s.engine.currentState).flag
          stops := s.engine.currentState.stopAtBreakpoints }) ∧
      ∀ later s', s.performAll I later = .ok s' →
        (∀ flag stops, ({ Mirror.of s.engine.currentState with flag, stops } : Mirror).receiveAll
          (s.engine.subscribe.pending s'.engine.events) = .of s'.engine.currentState) ∧
        ∃ events, ∀ before after s₀, ops = before ++ after →
          performAll I ⟨.start config saved clock, vm⟩ before = .ok s₀ →
          s₀.engine.subscribe.pending s'.engine.events =
            s₀.engine.subscribe.pending s.engine.events ++ events := by
  -- a client that was there from the start has heard of every change
  have hunheard : ∀ {e : Engine}, Engine.Evolves (fun _ _ => True) (.start config saved clock) e →
      ∀ flag stops, (Mirror.unheard flag stops).receiveAll
        ((Engine.start config saved clock).subscribe.pending e.events) = .of e.currentState :=
    fun hevolves flag stops => hevolves.receiveAll_subscribe flag stops
  have hfollows := Chronicle.follows_performAll I ⟨.start config saved clock, vm⟩ ops
    (isChain_true _)
  constructor
  · intro e call hasked
    exact hunheard (hfollows.asked hasked)
  · intro s hs
    refine ⟨hunheard (evolves_performAll hs (isChain_true _)),
      fun m => Engine.receiveAll_subscribe m s.engine, ?_⟩
    intro later s' hs'
    have hlater : Engine.Evolves (fun _ _ => True) s.engine s'.engine :=
      evolves_performAll hs' (isChain_true _)
    refine ⟨fun flag stops => hlater.receiveAll_subscribe flag stops, ?_⟩
    obtain ⟨events, hevents, -⟩ := hlater.tells
    refine ⟨events, ?_⟩
    -- whoever subscribed in between is sent the same events from here on
    rintro before after s₀ rfl hs₀
    exact sent_alike hs hs₀ hevents

/-- A client that subscribes while the program stops follows its stop, an error and a missing source. -/
theorem followed_stop :
    ∃ s s', performAll Player.interpreter ⟨.start {} {} 0, twoLines⟩
        [.toggleBreakpoint "a" 1, .pause, .submit ⟨.nil, []⟩] = .ok s ∧
      s.performAll Player.interpreter [.poll 2, .toggleBreakpoint "a" 2,
        .reportUncaught { message := "no" }, .fileLoaded "a" none fun _ => .error "none"] = .ok s' ∧
      (s.engine.subscribe.pending s'.engine.events).map Event.name =
        ["breakpoints-updated", "stop-at-breakpoints-updated", "state-updated",
          "breakpoint-updated", "error", "lua-load-failed"] ∧
      ∀ flag stops, ({ Mirror.of s.engine.currentState with flag, stops } : Mirror).receiveAll
        (s.engine.subscribe.pending s'.engine.events) = .of s'.engine.currentState := by
  have hruns : (performAll Player.interpreter ⟨.start {} {} 0, twoLines⟩
      [.toggleBreakpoint "a" 1, .pause, .submit ⟨.nil, []⟩]).map (fun s =>
        (s.performAll Player.interpreter [.poll 2, .toggleBreakpoint "a" 2,
          .reportUncaught { message := "no" }, .fileLoaded "a" none fun _ => .error "none"]).map
          fun s' => (s.engine.subscribe.pending s'.engine.events).map Event.name) =
      .ok (.ok ["breakpoints-updated", "stop-at-breakpoints-updated", "state-updated",
        "breakpoint-updated", "error", "lua-load-failed"]) := by
    decide +kernel
  obtain ⟨s, hs, hruns⟩ := Attended.exists_of_map_eq_ok hruns
  obtain ⟨s', hs', hsent⟩ := Attended.exists_of_map_eq_ok hruns
  obtain ⟨-, hends⟩ := events_complete Player.interpreter {} {} 0 twoLines
    [.toggleBreakpoint "a" 1, .pause, .submit ⟨.nil, []⟩]
  obtain ⟨-, -, hlater⟩ := hends s hs
  exact ⟨s, s', hs, hs', hsent, (hlater _ s' hs').1⟩

end Session

end BytecodeDebugger
