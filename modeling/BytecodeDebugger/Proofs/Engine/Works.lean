import BytecodeDebugger.Engine.Reply

/-!
# The engine during a run

While a program runs, the engine changes in three ways only. As long as nothing stops the run, it
*works*: it moves barriers, ends steps and notes the line (`Engine.Works`). When it holds a frame up
it parks the frame and then, at the interpreter's request, the callers (`Engine.hold`). And when an
error is made the error log grows, in addition to whatever else happens.

Everything else in the engine — its status, the parked frames, the waiting calls, the requests and
the events — is untouched by work.
-/

namespace BytecodeDebugger.Engine

/-- **What work changes.** -/
def Works (e e' : Engine) : Prop :=
  ∃ barriers lastExecuted stepping, e' = { e with barriers, lastExecuted, stepping }

theorem Works.refl (e : Engine) : e.Works e := ⟨_, _, _, rfl⟩

theorem Works.trans {e e' e'' : Engine} (h : e.Works e') (h' : e'.Works e'') : e.Works e'' := by
  obtain ⟨_, _, _, rfl⟩ := h
  obtain ⟨_, _, _, rfl⟩ := h'
  exact ⟨_, _, _, rfl⟩

section Untouched

variable {e e' : Engine} (h : e.Works e')

include h

theorem Works.status : e'.status = e.status := by
  obtain ⟨_, _, _, rfl⟩ := h
  rfl

theorem Works.parked : e'.parked = e.parked := by
  obtain ⟨_, _, _, rfl⟩ := h
  rfl

theorem Works.waiting : e'.waiting = e.waiting := by
  obtain ⟨_, _, _, rfl⟩ := h
  rfl

theorem Works.errors : e'.errors = e.errors := by
  obtain ⟨_, _, _, rfl⟩ := h
  rfl

theorem Works.requests : e'.requests = e.requests := by
  obtain ⟨_, _, _, rfl⟩ := h
  rfl

theorem Works.events : e'.events = e.events := by
  obtain ⟨_, _, _, rfl⟩ := h
  rfl

theorem Works.timers : e'.timers = e.timers := by
  obtain ⟨_, _, _, rfl⟩ := h
  rfl

end Untouched

theorem works_passBy (e : Engine) (site : Site) : e.Works (e.passBy site) := ⟨_, _, _, rfl⟩

theorem works_instructionDone (e : Engine) (frame : FrameId) (code : UInt8) :
    e.Works (e.instructionDone frame code) := ⟨_, e.lastExecuted, _, rfl⟩

/-- A change of status, made or refused, concerns the status, what is told of it and the record of
requests. -/
theorem transition_eq (e : Engine) (next : Status) (payload : Payload) :
    ∃ status told requests events, e.transition next payload =
      { e with status, payload := told, requests, events } := by
  unfold transition
  dsimp only
  split
  · exact ⟨_, _, _, _, rfl⟩
  -- refused, and only recorded
  · exact ⟨e.status, e.payload, _, e.events, rfl⟩

theorem waiting_transition (e : Engine) (next : Status) (payload : Payload) :
    (e.transition next payload).waiting = e.waiting := by
  obtain ⟨_, _, _, _, h⟩ := e.transition_eq next payload
  rw [h]

theorem barriers_transition (e : Engine) (next : Status) (payload : Payload) :
    (e.transition next payload).barriers = e.barriers := by
  obtain ⟨_, _, _, _, h⟩ := e.transition_eq next payload
  rw [h]

/-- A change of status that is allowed is made, recorded and announced. -/
theorem transition_allowed {e : Engine} {next : Status} (h : e.status.mayBecome next = true)
    (payload : Payload) :
    e.transition next payload = { e with
      status := next
      payload
      requests := e.requests.push ⟨e.status, next, e.parked.length⟩
      events := e.events.push (.stateUpdated next payload) } :=
  if_pos h

/-! ### Holding a frame up -/

/-- **A frame is held up**: it is parked, and then its callers, given from the inside out. -/
def hold (e : Engine) (site : Site) (callers : List FrameId) : Engine :=
  (callers.map Resumable.call).foldl park (e.suspendAt site)

theorem foldl_park (entries : List Resumable) (e : Engine) :
    entries.foldl park e = { e with parked := entries.reverse ++ e.parked } := by
  induction entries generalizing e with
  | nil => rfl
  | cons entry entries ih =>
    rw [List.foldl_cons, ih]
    simp [park]

/-- The engine after a frame was held up while nothing was parked. -/
theorem hold_eq {e : Engine} (hs : e.status = .running) (hp : e.parked = []) (site : Site)
    (callers : List FrameId) :
    e.hold site callers = { e with
      parked := ((site.frame :: callers).map Resumable.call).reverse
      barriers := e.barriers.insert site.frame (locationOf site)
      epoch := e.epoch + 1
      status := .suspending
      payload := { location := some (locationOf site) }
      requests := e.requests.push ⟨.running, .suspending, 1⟩
      events := e.events.push (.stateUpdated .suspending { location := some (locationOf site) })
      timers := e.timers.schedule e.clock (.enterSuspended (e.epoch + 1) (locationOf site)) } := by
  unfold hold
  rw [foldl_park]
  -- the callers lie outside the frame, so that the outermost of them is in front
  simp [suspendAt, transition, park, emit, hs, hp, StatusRequest.isAllowed, Status.mayBecome]

/-! ### Handing the parked frames back -/

/-- **The engine after an entry was handed back**, with those still parked inside it. -/
def handOver (e : Engine) (inner : List Resumable) : Engine :=
  let e := { e with parked := inner }
  if inner.isEmpty then e.transition .running {} else e

theorem handOver_cons (e : Engine) (entry : Resumable) (inner : List Resumable) :
    e.handOver (entry :: inner) = { e with parked := entry :: inner } := rfl

/-- With the last entry the program runs again. -/
theorem handOver_nil {e : Engine} (hs : e.status = .resuming) :
    e.handOver [] = { e with
      parked := []
      status := .running
      payload := {}
      requests := e.requests.push ⟨.resuming, .running, 0⟩
      events := e.events.push (.stateUpdated .running {}) } := by
  simp [handOver, transition, emit, hs, StatusRequest.isAllowed, Status.mayBecome]

theorem takeResume_cons {e : Engine} (hs : e.status = .resuming) (entry : Resumable)
    (inner : List Resumable) :
    takeResume { e with parked := entry :: inner } = (some entry, e.handOver inner) := by
  unfold takeResume
  rw [if_pos hs]
  rfl

theorem takeResume_running {e : Engine} (hs : e.status = .running) : e.takeResume = (none, e) := by
  unfold takeResume
  rw [if_neg (by rw [hs]; simp)]

end BytecodeDebugger.Engine
