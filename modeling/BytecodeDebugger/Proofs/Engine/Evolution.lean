import BytecodeDebugger.Proofs.Engine.Works
import BytecodeDebugger.Proofs.Session.Operation
import Mathlib.Logic.Relation

/-!
# How the engine changes

Whatever is done to a session, and whatever an interpreter asks on the way, the engine changes by a
few *acts* (`Engine.Acts`): the status goes on, a stop is started, an error is made or logged, a task
that is due is dropped or announces its stop, the clock is set, or something is *adjusted*
(`Engine.Adjusts`) that has to do with none of these. Every operation is a sequence of acts
(`Engine.Evolves`), so that what each act keeps is kept by all of them.

What the clock may do is a parameter. `Still` lets it do nothing: nothing that happens during an
operation sets the clock.

Main statements:

* `Adjusts.quiet` — adjustments leave the status, the timers, the errors and the clock alone;
* `Evolves.keeps`, `Evolves.relates` — the inductions over the acts;
* `served_reply`, `served_fail`, `served_afterResuming` — the answers to an interpreter and the
  handling of its results are acts of few kinds (`Served`).
-/

namespace BytecodeDebugger

/-- An announcement that concerns neither the status nor an error. -/
def Event.isSetting : Event → Bool
  | .stateUpdated .. => false
  | .error _ => false
  | _ => true

namespace Engine

variable {ticks : Time → Time → Prop}

/-! ### Acts -/

/-- The engine after a stop was announced. While steps are made automatically the next one is put
off. -/
def land (e : Engine) (payload : Payload) : Engine :=
  let e := e.transition .suspended payload
  if e.stepping.auto then
    { e with
      timers := e.timers.schedule (e.clock + e.config.autoStepDelay) (.autoStep e.generation) }
  else e

/-- The task announces a stop that still stands. -/
def Announces (e : Engine) (task : TimedTask) (location : SourceLocation) : Prop :=
  task = .enterSuspended e.epoch location ∧ e.status = .suspending

/-- **An adjustment**: a note about the run, a command's choice of steps, or a setting. -/
inductive Adjusts (e : Engine) : Engine → Prop where
  | notes (parked : List Resumable) (barriers : SortedMap FrameId SourceLocation)
      (waiting : List DeferredCall) (unsaved : List Save) (lastExecuted : Option SourceLocation) :
      Adjusts e { e with parked, barriers, waiting, unsaved, lastExecuted }
  | retargets (target : Option Resumable) :
      Adjusts e { e with stepping := { e.stepping with target } }
  | commands (stepping : Stepping) : Adjusts e { e.beginCommand with stepping }
  | resumed : Adjusts e (e.emit .resumed)
  | togglesStops : Adjusts e e.toggleStops.2
  | togglesBreakpoint (file : String) (line : Nat) : Adjusts e (e.toggledBreakpoint file line)
  | loads (jsonUrl : String) (path? : Option String) (fetch : String → Except String String) :
      Adjusts e (e.fileLoaded jsonUrl path? fetch).2

/-- **An act of the engine.** -/
inductive Acts (ticks : Time → Time → Prop) (e : Engine) : Engine → Prop where
  | adjusts {e' : Engine} (h : e.Adjusts e') : Acts ticks e e'
  | goesOn (next : Status) (h : next = .resuming ∨ next = .running) :
      Acts ticks e (e.transition next {})
  | suspends (site : Site) (h : e.shouldSuspend site = true) : Acts ticks e (e.suspendAt site)
  | creates (message : String) :
      Acts ticks e { e with errors := (e.errors.create message e.lastExecuted).2 }
  | logs (index : ErrorIndex) : Acts ticks e (e.announce index).2
  /-- a task is taken off the list and announces nothing -/
  | drops (task : TimedTask) (timers : Timers) (h : e.timers.popDue e.clock = some (task, timers))
      (hvoid : ∀ location, ¬ e.Announces task location) : Acts ticks e { e with timers }
  /-- a task is taken off the list and announces its stop -/
  | lands (task : TimedTask) (timers : Timers) (h : e.timers.popDue e.clock = some (task, timers))
      (location : SourceLocation) (hnow : e.Announces task location) (snapshot : Snapshot) :
      Acts ticks e (land { e with timers } { location := some location, snapshot := some snapshot })
  | sets (now : Time) (h : ticks e.clock now) : Acts ticks e (e.setClock now)

/-- **The engine changes by acts.** -/
def Evolves (ticks : Time → Time → Prop) : Engine → Engine → Prop :=
  Relation.ReflTransGen (Acts ticks)

/-- The clock stands still. -/
def Still (_ _ : Time) : Prop := False

namespace Evolves

variable {e e' e'' : Engine}

theorem refl (e : Engine) : Evolves ticks e e := Relation.ReflTransGen.refl

theorem trans (h : Evolves ticks e e') (h' : Evolves ticks e' e'') : Evolves ticks e e'' :=
  Relation.ReflTransGen.trans h h'

/-- **What every act keeps is kept.** -/
theorem keeps {P : Engine → Prop} (keep : ∀ e e', Acts ticks e e' → P e → P e')
    (h : Evolves ticks e e') (he : P e) : P e' := by
  induction h with
  | refl => exact he
  | tail _ hact ih => exact keep _ _ hact ih

/-- **What every act relates is related.** -/
theorem relates {R : Engine → Engine → Prop} (hrefl : ∀ e, R e e)
    (htrans : ∀ e e' e'', R e e' → R e' e'' → R e e'') (act : ∀ e e', Acts ticks e e' → R e e')
    (h : Evolves ticks e e') : R e e' := by
  induction h with
  | refl => exact hrefl e
  | tail _ hact ih => exact htrans _ _ _ ih (act _ _ hact)

end Evolves

theorem Acts.evolves {e e' : Engine} (h : Acts ticks e e') : Evolves ticks e e' :=
  Relation.ReflTransGen.single h

theorem Adjusts.evolves {e e' : Engine} (h : e.Adjusts e') : Evolves ticks e e' :=
  (Acts.adjusts h).evolves

/-! ### What acts leave alone -/

/-- **Nothing happens** to the status, the timers, the errors or the clock, and settings are all that
is announced. -/
structure Quiet (e e' : Engine) : Prop where
  status : e'.status = e.status
  payload : e'.payload = e.payload
  epoch : e'.epoch = e.epoch
  timers : e'.timers = e.timers
  errors : e'.errors = e.errors
  clock : e'.clock = e.clock
  events : ∃ settings : List Event, e'.events.toList = e.events.toList ++ settings ∧
    ∀ event ∈ settings, event.isSetting = true

namespace Quiet

variable {e e' e'' : Engine}

theorem refl (e : Engine) : e.Quiet e :=
  ⟨rfl, rfl, rfl, rfl, rfl, rfl, [], (List.append_nil _).symm, by simp⟩

theorem trans (h : e.Quiet e') (h' : e'.Quiet e'') : e.Quiet e'' := by
  obtain ⟨settings, hevents, hset⟩ := h.events
  obtain ⟨settings', hevents', hset'⟩ := h'.events
  refine ⟨h'.status.trans h.status, h'.payload.trans h.payload, h'.epoch.trans h.epoch,
    h'.timers.trans h.timers, h'.errors.trans h.errors, h'.clock.trans h.clock,
    settings ++ settings', ?_, ?_⟩
  · rw [hevents', hevents, List.append_assoc]
  · intro event hevent
    rcases List.mem_append.mp hevent with hevent | hevent
    · exact hset event hevent
    · exact hset' event hevent

/-- Announcing a setting. -/
theorem emit (e : Engine) {event : Event} (h : event.isSetting = true) : e.Quiet (e.emit event) :=
  ⟨rfl, rfl, rfl, rfl, rfl, rfl, [event], Array.toList_push, by simpa using h⟩

/-- Breakpoints, sources and what is to be saved. -/
theorem settings (e : Engine) (breakpoints : Breakpoints) (unsaved : List Save)
    (loaded : SortedMap String LoadedSource) :
    e.Quiet { e with breakpoints, unsaved, loaded } :=
  ⟨rfl, rfl, rfl, rfl, rfl, rfl, [], (List.append_nil _).symm, by simp⟩

/-- What is read off the announcements, and not off settings, stays the same. -/
theorem filterMap_events {α : Type} {f : Event → Option α}
    (hf : ∀ event, event.isSetting = true → f event = none) (h : e.Quiet e') :
    e'.events.toList.filterMap f = e.events.toList.filterMap f := by
  obtain ⟨settings, hevents, hset⟩ := h.events
  have hnone : settings.filterMap f = [] :=
    List.filterMap_eq_nil_iff.mpr fun event hevent => hf event (hset event hevent)
  rw [hevents, List.filterMap_append, hnone, List.append_nil]

end Quiet

theorem quiet_toggleStops (e : Engine) : e.Quiet e.toggleStops.2 :=
  (Quiet.settings e _ _ _).trans (.emit _ rfl)

theorem quiet_toggledBreakpoint (e : Engine) (file : String) (line : Nat) :
    e.Quiet (e.toggledBreakpoint file line) := by
  refine toggledBreakpoint_relates (.refl e) .trans quiet_toggleStops file line ?_
  intro isSet breakpoints _
  exact (Quiet.settings e _ _ _).trans (.emit _ rfl)

theorem quiet_fileLoaded (e : Engine) (jsonUrl : String) (path? : Option String)
    (fetch : String → Except String String) : e.Quiet (e.fileLoaded jsonUrl path? fetch).2 := by
  unfold fileLoaded
  dsimp only
  split
  · exact (Quiet.settings e _ _ _).trans (.emit _ rfl)
  · exact (Quiet.settings e _ _ _).trans (.emit _ rfl)

/-- **Adjustments are quiet.** -/
theorem Adjusts.quiet {e e' : Engine} (h : e.Adjusts e') : e.Quiet e' := by
  cases h with
  | notes => exact ⟨rfl, rfl, rfl, rfl, rfl, rfl, [], (List.append_nil _).symm, by simp⟩
  | retargets => exact ⟨rfl, rfl, rfl, rfl, rfl, rfl, [], (List.append_nil _).symm, by simp⟩
  | commands => exact ⟨rfl, rfl, rfl, rfl, rfl, rfl, [], (List.append_nil _).symm, by simp⟩
  | resumed => exact .emit e rfl
  | togglesStops => exact quiet_toggleStops e
  | togglesBreakpoint file line => exact quiet_toggledBreakpoint e file line
  | loads jsonUrl path? fetch => exact quiet_fileLoaded e jsonUrl path? fetch

theorem announce_eq (e : Engine) (index : ErrorIndex) :
    (e.announce index).2 =
      { e with
        errors := (e.errors.correlate index).2
        events := match (e.errors.correlate index).1 with
          | some record => e.events.push (.error record)
          | none => e.events } := by
  unfold announce
  rcases e.errors.correlate index with ⟨record | record, errors⟩ <;> rfl

theorem land_eq (e : Engine) (payload : Payload) :
    ∃ timers, e.land payload = { e.transition .suspended payload with timers } := by
  unfold land
  dsimp only
  split
  · exact ⟨_, rfl⟩
  · exact ⟨(e.transition .suspended payload).timers, rfl⟩

theorem clock_transition (e : Engine) (next : Status) (payload : Payload) :
    (e.transition next payload).clock = e.clock := by
  obtain ⟨_, _, _, _, h⟩ := e.transition_eq next payload
  rw [h]

/-- Only setting the clock sets the clock. -/
theorem Acts.clock {e e' : Engine} (h : Acts ticks e e') :
    e'.clock = e.clock ∨ ticks e.clock e'.clock := by
  -- only setting the clock changes it
  cases h with
  | adjusts h => exact .inl h.quiet.clock
  | goesOn next => exact .inl (clock_transition e next {})
  | suspends site => exact .inl (clock_transition _ _ _)
  | creates => exact .inl rfl
  | logs index =>
    rw [announce_eq]
    exact .inl rfl
  | drops => exact .inl rfl
  | lands task timers _ location _ snapshot =>
    obtain ⟨_, hland⟩ := land_eq { e with timers } { location, snapshot }
    rw [hland]
    exact .inl (clock_transition _ _ _)
  | sets now h => exact .inr h

/-- While the clock stands still it shows the same time. -/
theorem Evolves.clock {e e' : Engine} (h : Evolves Still e e') : e'.clock = e.clock := by
  refine h.relates (R := fun e e' => e'.clock = e.clock) (fun _ => rfl)
    (fun _ _ _ h h' => h'.trans h) fun e e' hact => ?_
  rcases hact.clock with h | h
  · exact h
  · exact h.elim

/-- No act touches the configuration. -/
theorem Acts.config {e e' : Engine} (h : Acts ticks e e') : e'.config = e.config := by
  -- the configuration is the one thing that no step changes
  have htransition : ∀ (e : Engine) (next : Status) (payload : Payload),
      (e.transition next payload).config = e.config := by
    intro e next payload
    obtain ⟨_, _, _, _, h⟩ := e.transition_eq next payload
    rw [h]
  cases h with
  | adjusts h =>
    cases h with
    | notes | retargets | commands | resumed | togglesStops => rfl
    | togglesBreakpoint file line =>
      obtain ⟨_, _, _, _, _, _, _, _, h, -⟩ := e.tweaks_toggledBreakpoint file line
      rw [h]
    | loads jsonUrl path? fetch =>
      obtain ⟨_, _, _, _, _, _, _, _, h, -⟩ := e.tweaks_fileLoaded jsonUrl path? fetch
      rw [h]
  | goesOn next => exact htransition e next {}
  | suspends site => exact htransition _ _ _
  | creates | drops | sets => rfl
  | logs index => rw [announce_eq]
  | lands task timers _ location _ snapshot =>
    obtain ⟨_, hland⟩ := land_eq { e with timers } { location, snapshot }
    rw [hland]
    exact htransition _ _ _

theorem Evolves.config {e e' : Engine} (h : Evolves ticks e e') : e'.config = e.config :=
  h.relates (R := fun e e' => e'.config = e.config) (fun _ => rfl) (fun _ _ _ h h' => h'.trans h)
    fun _ _ hact => hact.config

/-! ### While code runs -/

/-- **What the engine does for code that runs.** It gives no command, announces no stop and leaves the
clock alone. -/
inductive Serves (e : Engine) : Engine → Prop where
  | notes (parked : List Resumable) (barriers : SortedMap FrameId SourceLocation)
      (waiting : List DeferredCall) (lastExecuted : Option SourceLocation) :
      Serves e { e with parked, barriers, waiting, lastExecuted }
  | retargets (target : Option Resumable) :
      Serves e { e with stepping := { e.stepping with target } }
  | runs : Serves e (e.transition .running {})
  | suspends (site : Site) (h : e.shouldSuspend site = true) : Serves e (e.suspendAt site)
  | creates (message : String) :
      Serves e { e with errors := (e.errors.create message e.lastExecuted).2 }
  | logs (index : ErrorIndex) : Serves e (e.announce index).2

/-- **The engine serves code that runs.** -/
def Served : Engine → Engine → Prop := Relation.ReflTransGen Serves

theorem Serves.acts {e e' : Engine} (h : e.Serves e') : Acts ticks e e' := by
  cases h with
  | notes parked barriers waiting lastExecuted => exact .adjusts (.notes _ _ _ e.unsaved _)
  | retargets target => exact .adjusts (.retargets target)
  | runs => exact .goesOn .running (.inr rfl)
  | suspends site h => exact .suspends site h
  | creates message => exact .creates message
  | logs index => exact .logs index

theorem Serves.served {e e' : Engine} (h : e.Serves e') : e.Served e' := Relation.ReflTransGen.single h

namespace Served

variable {e e' e'' : Engine}

theorem refl (e : Engine) : e.Served e := Relation.ReflTransGen.refl

theorem trans (h : e.Served e') (h' : e'.Served e'') : e.Served e'' :=
  Relation.ReflTransGen.trans h h'

/-- **What every act for running code relates is related.** -/
theorem relates {R : Engine → Engine → Prop} (hrefl : ∀ e, R e e)
    (htrans : ∀ e e' e'', R e e' → R e' e'' → R e e'') (act : ∀ e e', e.Serves e' → R e e')
    (h : e.Served e') : R e e' := by
  induction h with
  | refl => exact hrefl e
  | tail _ hserves ih => exact htrans _ _ _ ih (act _ _ hserves)

theorem evolves (h : e.Served e') : Evolves ticks e e' :=
  h.relates .refl (fun _ _ _ => .trans) fun _ _ hserves => hserves.acts.evolves

theorem config (h : e.Served e') : e'.config = e.config :=
  Evolves.config (h.evolves : Evolves Still e e')

/-- Whether the program is stepped is a matter of commands. -/
theorem stepping_on (h : e.Served e') : e'.stepping.on = e.stepping.on := by
  refine h.relates (R := fun e e' => e'.stepping.on = e.stepping.on) (fun _ => rfl)
    (fun _ _ _ h h' => h'.trans h) fun e e' hserves => ?_
  -- a change of status leaves the stepping alone
  have htransition : ∀ (e : Engine) (next : Status) (payload : Payload),
      (e.transition next payload).stepping = e.stepping := by
    intro e next payload
    obtain ⟨_, _, _, _, h⟩ := e.transition_eq next payload
    rw [h]
  cases hserves with
  | notes | retargets | creates => rfl
  | runs => exact congrArg Stepping.on (htransition e .running {})
  | suspends site => exact congrArg Stepping.on (htransition _ _ _)
  | logs index => rw [announce_eq]

end Served

section Answers

variable (e : Engine)

theorem served_notes (parked : List Resumable) (barriers : SortedMap FrameId SourceLocation)
    (waiting : List DeferredCall) (lastExecuted : Option SourceLocation) :
    e.Served { e with parked, barriers, waiting, lastExecuted } :=
  (Serves.notes parked barriers waiting lastExecuted).served

theorem served_running : e.Served (e.transition .running {}) := Serves.runs.served

theorem served_instructionDone (frame : FrameId) (opcode : UInt8) :
    e.Served (e.instructionDone frame opcode) := by
  have htarget : ∃ target, (e.instructionDone frame opcode).stepping =
      { e.stepping with target } := by
    unfold instructionDone Stepping.clearTarget
    dsimp only
    split
    · split
      · exact ⟨none, rfl⟩
      · exact ⟨e.stepping.target, rfl⟩
    · exact ⟨e.stepping.target, rfl⟩
  obtain ⟨target, htarget⟩ := htarget
  -- the barriers first, and then the target
  have hdone : e.instructionDone frame opcode =
      { { e with barriers := (e.instructionDone frame opcode).barriers } with
        stepping := { e.stepping with target } } := by
    rw [← htarget]
    rfl
  rw [hdone]
  exact (served_notes e _ _ _ _).trans (Serves.retargets target).served

theorem served_takeResume : e.Served e.takeResume.2 := by
  unfold takeResume
  split
  · split
    · exact .refl e
    · next entry inner hparked =>
      have hnote : e.Served { e with parked := inner } := served_notes e inner _ _ _
      dsimp only
      -- with the last entry the program runs
      split
      · exact hnote.trans (served_running _)
      · exact hnote
  · exact .refl e

/-- **An answer to an interpreter.** -/
theorem served_reply (call : HookCall) : e.Served (reply call e).2 := by
  cases call with
  | before site =>
    unfold reply
    dsimp only
    split
    · next h => exact (Serves.suspends site h).served
    · exact served_notes e _ _ _ _
  | after frame pc opcode failure =>
    -- an instruction that failed leaves the engine alone
    cases failure with
    | none => exact served_instructionDone e frame opcode
    | some error => exact .refl e
  | park entry => exact served_notes e _ _ _ _
  | takeResume => exact served_takeResume e
  | isResuming => exact .refl e
  | raise message => exact (Serves.creates message).served

theorem served_forgetFrames : e.Served e.forgetFrames :=
  (served_notes e e.parked .empty _ _).trans (Serves.retargets none).served

/-- Adopting an error makes one, unless it has a record. -/
theorem served_adopt (error : RuntimeError) :
    e.Served { e with errors := (e.errors.adopt error e.lastExecuted).2 } := by
  unfold ErrorLog.adopt
  split
  · exact .refl e
  · exact (Serves.creates error.message).served

theorem served_reportUncaught (error : RuntimeError) :
    e.Served (e.reportUncaught error).2 := by
  unfold reportUncaught
  split
  · next index _ => exact (Serves.logs index).served
  · have hadopt : e.Served _ := served_adopt e error
    dsimp only
    split
    · next index _ => exact hadopt.trans (Serves.logs index).served
    · exact hadopt

theorem served_reportText (message : String) : e.Served (e.reportText message).2 := by
  unfold reportText
  split
  · next index _ => exact (Serves.logs index).served
  · exact .refl e

/-- **Dealing with an error.** -/
theorem served_fail (error : ExecError) (origin : Option StackEntry) :
    e.Served (e.fail error origin).2 := by
  have hnormal : e.Served (e.normalize error).2 := by
    cases error with
    | runtime error => exact served_adopt e error
    | host error => exact (Serves.creates (ErrorLog.hostMessage error)).served
  exact (hnormal.trans (served_forgetFrames _)).trans (served_reportUncaught _ _)

theorem served_abandonSuspension : e.Served e.abandonSuspension := by
  -- the frames are forgotten first, and only then the engine runs again
  have hdrop : e.Served
      (if e.parked.isEmpty then e else { e with parked := [] }.forgetFrames) := by
    split
    · exact .refl e
    · exact (served_notes e [] _ _ _).trans (served_forgetFrames _)
  unfold abandonSuspension
  dsimp only
  generalize (if e.parked.isEmpty then e else { e with parked := [] }.forgetFrames) = dropped
    at hdrop ⊢
  split
  · exact hdrop
  · exact hdrop.trans (served_running _)

/-- **Dealing with the end of a run.** -/
theorem served_afterResuming (origin : Option StackEntry) (result : RunResult) :
    e.Served (e.afterResuming origin result) := by
  unfold afterResuming
  split
  · exact .refl e
  · split
    · exact served_abandonSuspension e
    · exact .refl e
  · exact (served_fail e _ origin).trans (served_abandonSuspension _)

theorem served_popOutermost {e e' : Engine} {entry : Resumable}
    (h : e.popOutermost = some (entry, e')) : e.Served e' := by
  unfold popOutermost at h
  split at h
  · cases h
  · next entry inner hparked =>
    cases h
    have hnote : e.Served { e with parked := inner } := served_notes e inner _ _ _
    split
    · exact hnote.trans (served_running _)
    · exact hnote

end Answers

/-! ### What the engine does is acts -/

section Operations

variable (e : Engine)

theorem evolves_notes (parked : List Resumable) (barriers : SortedMap FrameId SourceLocation)
    (waiting : List DeferredCall) (unsaved : List Save) (lastExecuted : Option SourceLocation) :
    Evolves ticks e { e with parked, barriers, waiting, unsaved, lastExecuted } :=
  (Adjusts.notes parked barriers waiting unsaved lastExecuted).evolves

theorem evolves_pause : Evolves ticks e e.pause := by
  unfold pause
  split
  · exact (Adjusts.commands e.stepping.pause).evolves
  · exact .refl e

end Operations

end Engine

end BytecodeDebugger
