import BytecodeDebugger.Proofs.Engine.AutoSteps

/-!
# Engines that differ by polls

A poll changes the list of tasks, and a stop that it announces changes the status, the payload, the
record of requests and what clients were told. Engines that differ by nothing else *match*
(`Engine.Matches`): their statuses are related in some way, and they told their clients the same but
for the announcements of stops.

Two ways of relating the statuses matter. While code runs no poll comes between, and the engines are
*twins*: they have the same status, give the same answers and stay twins (`Twin.reply`). Between
operations they are only *alike*: one of them may be suspended already while the other still is to
announce it. A command to go on makes twins of them (`Alike.resuming`).
-/

namespace BytecodeDebugger

/-- The announcement of a stop. -/
def Event.isNotice : Event → Bool
  | .stateUpdated .suspended _ => true
  | _ => false

/-- What clients were told, but for the announcements of stops. -/
def unnoticed (events : Array Event) : List Event :=
  events.toList.filter fun event => !event.isNotice

theorem unnoticed_push {events events' : Array Event} (h : unnoticed events' = unnoticed events)
    (event : Event) : unnoticed (events'.push event) = unnoticed (events.push event) := by
  unfold unnoticed at h ⊢
  rw [Array.toList_push, Array.toList_push, List.filter_append, List.filter_append, h]

theorem unnoticed_notice (events : Array Event) (payload : Payload) :
    unnoticed (events.push (.stateUpdated .suspended payload)) = unnoticed events := by
  unfold unnoticed
  rw [Array.toList_push, List.filter_append]
  exact List.append_nil _

/-- The status, whether or not its stop was announced. -/
def Status.settled : Status → Status
  | .suspending => .suspended
  | status => status

namespace Engine

/-- **Engines that match**, with statuses that are related. -/
def Matches (R : Status → Status → Prop) (e e' : Engine) : Prop :=
  ∃ status payload requests timers clock events,
    e' = { e with status, payload, requests, timers, clock, events } ∧ R e.status status ∧
      unnoticed events = unnoticed e.events

/-- Engines that match and have the same status. -/
abbrev Twin : Engine → Engine → Prop := Matches Eq

/-- **Engines that match, and stand alike.** -/
abbrev Alike : Engine → Engine → Prop := Matches fun status status' => status'.settled = status.settled

variable {R : Status → Status → Prop} {e e' e'' : Engine}

namespace Alike

theorem refl (e : Engine) : e.Alike e := ⟨_, _, _, _, _, _, rfl, rfl, rfl⟩

theorem symm (h : e.Alike e') : e'.Alike e := by
  obtain ⟨status, payload, requests, timers, clock, events, rfl, hstatus, htold⟩ := h
  exact ⟨e.status, e.payload, e.requests, e.timers, e.clock, e.events, rfl, hstatus.symm, htold.symm⟩

theorem trans (h : e.Alike e') (h' : e'.Alike e'') : e.Alike e'' := by
  obtain ⟨status, payload, requests, timers, clock, events, rfl, hstatus, htold⟩ := h
  obtain ⟨_, _, _, _, _, _, rfl, hstatus', htold'⟩ := h'
  exact ⟨_, _, _, _, _, _, rfl, hstatus'.trans hstatus, htold'.trans htold⟩

/-- Both programs run, or neither. -/
theorem running_iff (h : e.Alike e') : e'.status = .running ↔ e.status = .running := by
  obtain ⟨status, _, _, _, _, _, rfl, hstatus, -⟩ := h
  change status = .running ↔ _
  revert hstatus
  cases status <;> cases e.status <;> decide

end Alike

namespace Twin

theorem alike (h : e.Twin e') : e.Alike e' := by
  obtain ⟨_, _, _, _, _, _, rfl, rfl, htold⟩ := h
  exact ⟨_, _, _, _, _, _, rfl, rfl, htold⟩

theorem status (h : e.Twin e') : e'.status = e.status := by
  obtain ⟨_, _, _, _, _, _, rfl, hstatus, -⟩ := h
  exact hstatus.symm

end Twin

theorem Alike.twin (h : e.Alike e') (hstatus : e'.status = e.status) : e.Twin e' := by
  obtain ⟨_, _, _, _, _, _, rfl, -, htold⟩ := h
  exact ⟨_, _, _, _, _, _, rfl, hstatus.symm, htold⟩

/-! ### What does not depend on the status -/

namespace Matches

theorem stepping (h : e.Matches R e') : e'.stepping = e.stepping := by
  obtain ⟨_, _, _, _, _, _, rfl, -, -⟩ := h
  rfl

theorem parked (h : e.Matches R e') : e'.parked = e.parked := by
  obtain ⟨_, _, _, _, _, _, rfl, -, -⟩ := h
  rfl

theorem waiting (h : e.Matches R e') : e'.waiting = e.waiting := by
  obtain ⟨_, _, _, _, _, _, rfl, -, -⟩ := h
  rfl

theorem emit (h : e.Matches R e') (event : Event) : (e.emit event).Matches R (e'.emit event) := by
  obtain ⟨_, _, _, _, _, _, rfl, hstatus, htold⟩ := h
  exact ⟨_, _, _, _, _, _, rfl, hstatus, unnoticed_push htold event⟩

theorem forgetFrames (h : e.Matches R e') : e.forgetFrames.Matches R e'.forgetFrames := by
  obtain ⟨_, _, _, _, _, _, rfl, hstatus, htold⟩ := h
  exact ⟨_, _, _, _, _, _, rfl, hstatus, htold⟩

theorem announce (h : e.Matches R e') (index : ErrorIndex) :
    (e'.announce index).1 = (e.announce index).1 ∧
      (e.announce index).2.Matches R (e'.announce index).2 := by
  obtain ⟨_, _, _, _, _, _, rfl, hstatus, htold⟩ := h
  unfold Engine.announce
  dsimp only
  -- the log is the same in both, so that either both tell the client or neither does
  cases e.errors.correlate index with
  | mk line errors =>
    cases line with
    | none => exact ⟨rfl, _, _, _, _, _, _, rfl, hstatus, htold⟩
    | some record => exact ⟨rfl, _, _, _, _, _, _, rfl, hstatus, unnoticed_push htold _⟩

theorem reportUncaught (h : e.Matches R e') (error : RuntimeError) :
    (e'.reportUncaught error).1 = (e.reportUncaught error).1 ∧
      (e.reportUncaught error).2.Matches R (e'.reportUncaught error).2 := by
  unfold Engine.reportUncaught
  cases error.index with
  | some index => exact h.announce index
  | none =>
    obtain ⟨status, payload, requests, timers, clock, events, rfl, hstatus, htold⟩ := h
    dsimp only
    cases e.errors.adopt error e.lastExecuted with
    | mk adopted errors =>
      -- both adopt the error at the same line, and get the same log by it
      have hadopted : ({ e with errors } : Engine).Matches R
          { e with status, payload, requests, timers, clock, events, errors } :=
        ⟨_, _, _, _, _, _, rfl, hstatus, htold⟩
      dsimp only
      cases adopted.index with
      | some index => exact hadopted.announce index
      | none => exact ⟨rfl, hadopted⟩

theorem reportText (h : e.Matches R e') (message : String) :
    (e'.reportText message).1 = (e.reportText message).1 ∧
      (e.reportText message).2.Matches R (e'.reportText message).2 := by
  unfold Engine.reportText
  cases ErrorIndex.ofTagged message with
  | some index => exact h.announce index
  | none => exact ⟨rfl, h⟩

theorem normalize (h : e.Matches R e') (error : ExecError) :
    (e'.normalize error).1 = (e.normalize error).1 ∧
      (e.normalize error).2.Matches R (e'.normalize error).2 := by
  obtain ⟨_, _, _, _, _, _, rfl, hstatus, htold⟩ := h
  cases error <;> exact ⟨rfl, _, _, _, _, _, _, rfl, hstatus, htold⟩

/-- An error that escaped is dealt with in the same way. -/
theorem fail (h : e.Matches R e') (error : ExecError) (origin : Option StackEntry) :
    (e'.fail error origin).1 = (e.fail error origin).1 ∧
      (e.fail error origin).2.Matches R (e'.fail error origin).2 := by
  obtain ⟨herror, hnormal⟩ := h.normalize error
  have hfail : ∀ e : Engine, (e.fail error origin).2 =
      ((e.normalize error).2.forgetFrames.reportUncaught (e.fail error origin).1).2 := fun _ => rfl
  have hresult : (e'.fail error origin).1 = (e.fail error origin).1 := by
    unfold Engine.fail
    dsimp only
    rw [herror]
  refine ⟨hresult, ?_⟩
  rw [hfail e, hfail e', hresult]
  exact (hnormal.forgetFrames.reportUncaught _).2

theorem toggleStops (h : e.Matches R e') :
    e'.toggleStops.1 = e.toggleStops.1 ∧ e.toggleStops.2.Matches R e'.toggleStops.2 := by
  obtain ⟨_, _, _, _, _, _, rfl, hstatus, htold⟩ := h
  exact ⟨rfl, _, _, _, _, _, _, rfl, hstatus, unnoticed_push htold _⟩

theorem flipped (h : e.Matches R e') (file : String) (line : Nat) (isSet : Bool)
    (breakpoints : Breakpoints) :
    (e.flipped file line isSet breakpoints).Matches R
      (e'.flipped file line isSet breakpoints) := by
  obtain ⟨status, payload, requests, timers, clock, events, rfl, hstatus, htold⟩ := h
  -- what matching leaves open does not enter into what is saved or announced
  have hset : (({ e with breakpoints }.put (.breakpoints breakpoints.flags)).emit
      (.breakpointUpdated file line isSet)).Matches R
        (({ e with status, payload, requests, timers, clock, events, breakpoints }.put
          (.breakpoints breakpoints.flags)).emit (.breakpointUpdated file line isSet)) :=
    ⟨_, _, _, _, _, _, rfl, hstatus, unnoticed_push htold _⟩
  unfold Engine.flipped
  dsimp only
  split
  · exact hset.toggleStops.2
  · exact hset

theorem toggleBreakpoint (h : e.Matches R e') (file : String) (line : Nat) :
    (e'.toggleBreakpoint file line).map (·.map Prod.fst) =
        (e.toggleBreakpoint file line).map (·.map Prod.fst) ∧
      (e.toggledBreakpoint file line).Matches R (e'.toggledBreakpoint file line) := by
  have hsame : e'.breakpoints = e.breakpoints := by
    obtain ⟨_, _, _, _, _, _, rfl, -⟩ := h
    rfl
  unfold toggledBreakpoint Engine.toggleBreakpoint
  rw [hsame]
  cases e.breakpoints.toggle file line with
  | error reason => exact ⟨rfl, h⟩
  | ok toggled =>
    cases toggled with
    | error invalid => exact ⟨rfl, h⟩
    | ok p => exact ⟨rfl, h.flipped file line p.1 p.2⟩

theorem fileLoaded (h : e.Matches R e') (jsonUrl : String) (path? : Option String)
    (fetch : String → Except String String) :
    (e'.fileLoaded jsonUrl path? fetch).1 = (e.fileLoaded jsonUrl path? fetch).1 ∧
      (e.fileLoaded jsonUrl path? fetch).2.Matches R (e'.fileLoaded jsonUrl path? fetch).2 := by
  obtain ⟨_, _, _, _, _, _, rfl, hstatus, htold⟩ := h
  unfold Engine.fileLoaded
  dsimp only
  split <;> exact ⟨rfl, _, _, _, _, _, _, rfl, hstatus, unnoticed_push htold _⟩

theorem takeUnsaved (h : e.Matches R e') :
    e'.takeUnsaved.1 = e.takeUnsaved.1 ∧ e.takeUnsaved.2.Matches R e'.takeUnsaved.2 := by
  obtain ⟨_, _, _, _, _, _, rfl, hstatus, htold⟩ := h
  exact ⟨rfl, _, _, _, _, _, _, rfl, hstatus, htold⟩

/-- Other calls wait. -/
theorem waits (h : e.Matches R e') (waiting : List DeferredCall) :
    ({ e with waiting } : Engine).Matches R { e' with waiting } := by
  obtain ⟨_, _, _, _, _, _, rfl, hstatus, htold⟩ := h
  exact ⟨_, _, _, _, _, _, rfl, hstatus, htold⟩

theorem queues (h : e.Matches R e') (call : DeferredCall) :
    ({ e with waiting := e.waiting ++ [call] } : Engine).Matches R
      { e' with waiting := e'.waiting ++ [call] } := by
  rw [h.waiting]
  exact h.waits _

/-- A command sets how the program is stepped. -/
theorem command (h : e.Matches R e') (stepping : Stepping) :
    ({ e.beginCommand with stepping } : Engine).Matches R { e'.beginCommand with stepping } := by
  obtain ⟨_, _, _, _, _, _, rfl, hstatus, htold⟩ := h
  exact ⟨_, _, _, _, _, _, rfl, hstatus, htold⟩

end Matches

/-- Only a running program is asked to pause. -/
theorem Alike.pause (h : e.Alike e') : e.pause.Alike e'.pause := by
  unfold Engine.pause
  rw [h.stepping]
  by_cases hrunning : e.status = .running
  · rw [if_pos hrunning, if_pos (h.running_iff.mpr hrunning)]
    exact h.command _
  · rw [if_neg hrunning, if_neg fun hr => hrunning (h.running_iff.mp hr)]
    exact h

/-! ### While code runs -/

/-- A change of status that is not allowed leaves a record. -/
theorem transition_refused {next : Status} (h : e.status.mayBecome next = false) (payload : Payload) :
    e.transition next payload =
      { e with requests := e.requests.push ⟨e.status, next, e.parked.length⟩ } := by
  unfold transition
  dsimp only
  rw [if_neg]
  unfold StatusRequest.isAllowed
  rw [h]
  exact Bool.false_ne_true

theorem takeResume_eq (e : Engine) :
    e.takeResume = if e.status = .resuming then
      match e.parked with
      | [] => (none, e)
      | entry :: inner => (some entry, e.handOver inner)
    else (none, e) := rfl

theorem popOutermost_eq (e : Engine) :
    e.popOutermost = match e.parked with
      | [] => none
      | entry :: inner => some (entry, e.handOver inner) := rfl

namespace Twin

/-- **Twins change their status alike.** -/
theorem transition (h : e.Twin e') (next : Status) (payload : Payload) :
    (e.transition next payload).Twin (e'.transition next payload) := by
  cases hallowed : e.status.mayBecome next with
  | true =>
    have hallowed' : e'.status.mayBecome next = true := h.status ▸ hallowed
    rw [transition_allowed hallowed, transition_allowed hallowed']
    obtain ⟨_, _, _, _, _, _, rfl, -, htold⟩ := h
    exact ⟨_, _, _, _, _, _, rfl, rfl, unnoticed_push htold _⟩
  | false =>
    have hrefused : e'.status.mayBecome next = false := h.status ▸ hallowed
    rw [transition_refused hallowed, transition_refused hrefused]
    obtain ⟨_, _, _, _, _, _, rfl, hstatus, htold⟩ := h
    exact ⟨_, _, _, _, _, _, rfl, hstatus, htold⟩

/-- A stop is started, and its announcement is put off to the time of each engine. -/
theorem suspendAt (h : e.Twin e') (site : Site) : (e.suspendAt site).Twin (e'.suspendAt site) := by
  -- timers are among what may differ
  have hput : ∀ {e e' : Engine} {timers timers' : Timers}, e.Twin e' →
      ({ e with timers } : Engine).Twin { e' with timers := timers' } := by
    rintro e _ timers timers' ⟨_, _, _, _, _, _, rfl, hstatus, htold⟩
    exact ⟨_, _, _, _, _, _, rfl, hstatus, htold⟩
  obtain ⟨status, payload, requests, timers, clock, events, rfl, hstatus, htold⟩ := h
  have hparked : ({ e.park (.call site.frame) with
      barriers := e.barriers.insert site.frame (locationOf site)
      epoch := e.epoch + 1 } : Engine).Twin
        { e.park (.call site.frame) with
          status, payload, requests, timers, clock, events
          barriers := e.barriers.insert site.frame (locationOf site)
          epoch := e.epoch + 1 } :=
    ⟨_, _, _, _, _, _, rfl, hstatus, htold⟩
  exact hput (hparked.transition .suspending { location := some (locationOf site) })

/-- The engines after the outermost entry was handed back. -/
theorem handOver (h : e.Twin e') (inner : List Resumable) :
    (e.handOver inner).Twin (e'.handOver inner) := by
  have hinner : ({ e with parked := inner } : Engine).Twin { e' with parked := inner } := by
    obtain ⟨_, _, _, _, _, _, rfl, hstatus, htold⟩ := h
    exact ⟨_, _, _, _, _, _, rfl, hstatus, htold⟩
  unfold Engine.handOver
  dsimp only
  split
  · exact hinner.transition .running {}
  · exact hinner

theorem takeResume (h : e.Twin e') :
    e'.takeResume.1 = e.takeResume.1 ∧ e.takeResume.2.Twin e'.takeResume.2 := by
  rw [takeResume_eq, takeResume_eq, h.status, h.parked]
  split
  · cases e.parked with
    | nil => exact ⟨rfl, h⟩
    | cons entry inner => exact ⟨rfl, h.handOver inner⟩
  · exact ⟨rfl, h⟩

/-- **Twins give the same answers**, and stay twins. -/
theorem reply (h : e.Twin e') (call : HookCall) :
    (Engine.reply call e').1 = (Engine.reply call e).1 ∧
      (Engine.reply call e).2.Twin (Engine.reply call e').2 := by
  cases call with
  | before site =>
    -- what decides on a stop is the same in both, the status included
    have hsuspend : e'.shouldSuspend site = e.shouldSuspend site := by
      obtain ⟨_, _, _, _, _, _, rfl, rfl, -⟩ := h
      rfl
    unfold Engine.reply
    dsimp only
    rw [hsuspend]
    split
    · exact ⟨rfl, h.suspendAt site⟩
    · obtain ⟨_, _, _, _, _, _, rfl, hstatus, htold⟩ := h
      exact ⟨rfl, _, _, _, _, _, _, rfl, hstatus, htold⟩
  | takeResume => exact h.takeResume
  | isResuming =>
    refine ⟨?_, h⟩
    change decide (e'.status = _) = decide (e.status = _)
    rw [h.status]
  | after frame pc opcode failure =>
    obtain ⟨_, _, _, _, _, _, rfl, hstatus, htold⟩ := h
    cases failure <;> exact ⟨rfl, _, _, _, _, _, _, rfl, hstatus, htold⟩
  | park entry =>
    obtain ⟨_, _, _, _, _, _, rfl, hstatus, htold⟩ := h
    exact ⟨rfl, _, _, _, _, _, _, rfl, hstatus, htold⟩
  | raise message =>
    obtain ⟨_, _, _, _, _, _, rfl, hstatus, htold⟩ := h
    exact ⟨rfl, _, _, _, _, _, _, rfl, hstatus, htold⟩

theorem abandonSuspension (h : e.Twin e') : e.abandonSuspension.Twin e'.abandonSuspension := by
  -- both drop what is parked, or neither has anything to drop
  have hdrop : (if e.parked.isEmpty then e else { e with parked := [] }.forgetFrames).Twin
      (if e'.parked.isEmpty then e' else { e' with parked := [] }.forgetFrames) := by
    rw [h.parked]
    split
    · exact h
    · obtain ⟨_, _, _, _, _, _, rfl, hstatus, htold⟩ := h
      exact ⟨_, _, _, _, _, _, rfl, hstatus, htold⟩
  unfold Engine.abandonSuspension
  dsimp only
  generalize (if e.parked.isEmpty then e else { e with parked := [] }.forgetFrames) = dropped
    at hdrop ⊢
  generalize (if e'.parked.isEmpty then e' else { e' with parked := [] }.forgetFrames) = dropped'
    at hdrop ⊢
  rw [hdrop.status]
  split
  · exact hdrop
  · exact hdrop.transition .running {}

theorem afterResuming (h : e.Twin e') (origin : Option StackEntry) (result : RunResult) :
    (e.afterResuming origin result).Twin (e'.afterResuming origin result) := by
  unfold Engine.afterResuming
  -- a failure leaves the stop behind, and a result does so once the engine runs
  cases result with
  | error error =>
    have hfailed : (e.fail error origin).2.Twin (e'.fail error origin).2 := (h.fail error origin).2
    exact hfailed.abandonSuspension
  | ok outcome =>
    cases outcome with
    | suspended => exact h
    | completed values =>
      dsimp only
      rw [h.status]
      split
      · exact h.abandonSuspension
      · exact h

end Twin

/-- **A command to go on makes twins of engines that are alike.** -/
theorem Alike.resuming (h : e.Alike e') :
    (e.transition .resuming {}).Twin (e'.transition .resuming {}) := by
  by_cases hsame : e'.status = e.status
  · exact (h.twin hsame).transition .resuming {}
  · -- one of them is suspending and the other suspended, and both may go on
    have hstands : e.status.mayBecome .resuming = true ∧ e'.status.mayBecome .resuming = true := by
      obtain ⟨status, _, _, _, _, _, rfl, hstatus, -⟩ := h
      change status.settled = _ at hstatus
      change status ≠ _ at hsame
      change _ ∧ status.mayBecome .resuming = true
      revert hstatus hsame
      cases status <;> cases e.status <;> decide
    rw [transition_allowed hstands.1, transition_allowed hstands.2]
    obtain ⟨_, _, _, _, _, _, rfl, -, htold⟩ := h
    exact ⟨_, _, _, _, _, _, rfl, rfl, unnoticed_push htold _⟩

/-- **Announcing a stop leaves an engine alike.** -/
theorem alike_land (h : e.status = .suspending) (payload : Payload) : e.Alike (e.land payload) := by
  rw [land_of_suspending h]
  refine ⟨_, _, _, _, _, _, rfl, ?_, unnoticed_notice _ _⟩
  rw [h]
  rfl

end Engine

end BytecodeDebugger
