import BytecodeDebugger.Launch

/-!
# The operations of a session

Everything that whoever drives the debugger can do to a session, as data, so that a statement can
range over all ways to drive it. `Session.perform` is the operation itself, `Session.performAll` any
number of them; over the machine there is one thing more to do, the launch of a program
(`Session.undertake`, `Session.undertakeAll`).

A poll does what is due one task after the other, and each task does one of three things
(`Session.Does`, `Session.pollAt_relates`).

What an operation changes in the engine without running code falls into few kinds, on which the
invariants are proved: a *tweak* of what the client may set (`Engine.Tweaks`), and a *report* of an
error (`Engine.Reports`).
-/

namespace BytecodeDebugger

/-- **An operation.** -/
inductive Operation where
  /-- a call from the host -/
  | submit (call : DeferredCall)
  | stepIn
  | stepOver
  | stepOut
  | resume
  | autoStep
  | pause
  | toggleBreakpoint (file : String) (line : Nat)
  | toggleStops
  | setClock (now : Time)
  | poll (budget : Nat)
  | fileLoaded (jsonUrl : String) (path? : Option String) (fetch : String → Except String String)
  | takeUnsaved
  | reportUncaught (error : RuntimeError)
  | reportText (message : String)

namespace Operation

/-- Reports of errors come from whoever drives the debugger, not from the program. -/
def isReport : Operation → Bool
  | .reportUncaught _ => true
  | .reportText _ => true
  | _ => false

/-- The host call that an operation submits. -/
def submitted? : Operation → Option DeferredCall
  | .submit call => some call
  | _ => none

end Operation

namespace Engine

/-- The engine after a line was toggled; a line that no file has changes nothing. -/
def toggledBreakpoint (e : Engine) (file : String) (line : Nat) : Engine :=
  match e.toggleBreakpoint file line with
  | .ok (.ok (_, e)) => e
  | _ => e

/-- A toggle changes nothing, or it flips one breakpoint. -/
theorem toggledBreakpoint_cases (e : Engine) (file : String) (line : Nat) :
    e.toggledBreakpoint file line = e ∨ ∃ isSet breakpoints,
      e.breakpoints.toggle file line = .ok (.ok (isSet, breakpoints)) ∧
        e.toggledBreakpoint file line = e.flipped file line isSet breakpoints := by
  unfold toggledBreakpoint toggleBreakpoint
  cases e.breakpoints.toggle file line with
  | error reason => exact .inl rfl
  | ok toggled =>
    cases toggled with
    | error invalid => exact .inl rfl
    | ok p => exact .inr ⟨p.1, p.2, rfl, rfl⟩

/-- **What a toggle amounts to**: the flags change, which is put down and announced, and breakpoints
may be armed behind that. A relation of engines that chains and covers both covers the toggle. -/
theorem toggledBreakpoint_relates {R : Engine → Engine → Prop} {e : Engine} (hrefl : R e e)
    (htrans : ∀ {e' e''}, R e e' → R e' e'' → R e e'') (hstops : ∀ e', R e' e'.toggleStops.2)
    (file : String) (line : Nat)
    (hflags : ∀ isSet breakpoints, e.breakpoints.toggle file line = .ok (.ok (isSet, breakpoints)) →
      R e (({ e with breakpoints }.put (.breakpoints breakpoints.flags)).emit
        (.breakpointUpdated file line isSet))) :
    R e (e.toggledBreakpoint file line) := by
  rcases e.toggledBreakpoint_cases file line with hsame | ⟨isSet, breakpoints, htoggle, hflipped⟩
  · rw [hsame]
    exact hrefl
  · have hset := hflags isSet breakpoints htoggle
    rw [hflipped]
    unfold flipped
    dsimp only
    split
    · -- setting a breakpoint arms all of them
      exact htrans hset (hstops _)
    · exact hset

end Engine

namespace Session

variable {σ : Type}

/-- Toggles the breakpoint of a line. -/
def toggle (s : Session σ) (file : String) (line : Nat) : Except Stop (Session σ) :=
  (s.engine.toggleBreakpoint file line).map fun _ =>
    s.setEngine (s.engine.toggledBreakpoint file line)

/-- **Only a line beyond every list keeps a toggle from its end.** -/
theorem toggle_eq (s : Session σ) (file : String) (line : Nat) :
    s.toggle file line = if line ≤ Text.maxLength then
      .ok (s.setEngine (s.engine.toggledBreakpoint file line)) else .error .overflow := by
  -- the toggle has a result just where its answer has one
  have hmap : s.toggle file line = (s.engine.breakpoints.toggle file line).map fun _ =>
      s.setEngine (s.engine.toggledBreakpoint file line) := by
    unfold toggle Engine.toggleBreakpoint
    cases s.engine.breakpoints.toggle file line <;> rfl
  rw [hmap]
  by_cases hzero : line = 0
  · subst hzero
    rw [Breakpoints.toggle_zero, if_pos (Nat.zero_le _)]
    rfl
  · split
    · next hroom =>
      obtain ⟨isSet, b, htoggle⟩ := s.engine.breakpoints.exists_toggle file hzero hroom
      rw [htoggle]
      rfl
    · next hbeyond =>
      rw [Breakpoints.toggle_beyond _ _ (Nat.lt_of_not_le hbeyond)]
      rfl

/-- A toggle that ends is that of the engine. -/
theorem eq_of_toggle {s s' : Session σ} {file : String} {line : Nat}
    (hs' : s.toggle file line = .ok s') :
    s' = s.setEngine (s.engine.toggledBreakpoint file line) := by
  rw [toggle_eq] at hs'
  split at hs' <;> cases hs'
  rfl

/-- **Performs an operation.** -/
def perform (I : Interpreter σ) (s : Session σ) : Operation → Except Stop (Session σ)
  | .submit call => (s.execute I call.function call.args).map Prod.snd
  | .stepIn => s.stepIn I
  | .stepOver => s.stepOver I
  | .stepOut => s.stepOut I
  | .resume => s.resume I
  | .autoStep => (s.autoStep I).map Prod.snd
  | .pause => .ok (s.setEngine s.engine.pause)
  | .toggleBreakpoint file line => s.toggle file line
  | .toggleStops => .ok (s.setEngine s.engine.toggleStops.2)
  | .setClock now => .ok (s.setEngine (s.engine.setClock now))
  | .poll budget => s.poll I budget
  | .fileLoaded jsonUrl path? fetch =>
    .ok (s.setEngine (s.engine.fileLoaded jsonUrl path? fetch).2)
  | .takeUnsaved => .ok (s.setEngine s.engine.takeUnsaved.2)
  | .reportUncaught error => .ok (s.setEngine (s.engine.reportUncaught error).2)
  | .reportText message => .ok (s.setEngine (s.engine.reportText message).2)

/-- **Performs operations in order.** -/
def performAll (I : Interpreter σ) (s : Session σ) : List Operation → Except Stop (Session σ)
  | [] => .ok s
  | op :: ops => (s.perform I op).bind fun s => s.performAll I ops

theorem performAll_append (I : Interpreter σ) (s : Session σ) (before after : List Operation) :
    s.performAll I (before ++ after) =
      (s.performAll I before).bind fun s => s.performAll I after := by
  -- operation by operation; the first one that stops ends both sides
  induction before generalizing s with
  | nil => rfl
  | cons op before ih =>
    change (s.perform I op).bind (fun s => s.performAll I (before ++ after)) =
      ((s.perform I op).bind fun s => s.performAll I before).bind _
    cases s.perform I op with
    | error reason => rfl
    | ok s₁ => exact ih s₁

/-- The last operation. -/
theorem performAll_concat {I : Interpreter σ} {s s' : Session σ} {ops : List Operation}
    {op : Operation} : s.performAll I (ops ++ [op]) = .ok s' ↔
      ∃ s₁, s.performAll I ops = .ok s₁ ∧ s₁.perform I op = .ok s' := by
  -- one operation by itself
  have hlast : ∀ s₁ : Session σ, s₁.performAll I [op] = s₁.perform I op := by
    intro s₁
    unfold performAll
    cases s₁.perform I op <;> rfl
  rw [performAll_append]
  cases s.performAll I ops with
  | error reason => exact ⟨fun h => (by cases h), fun ⟨_, h, _⟩ => (by cases h)⟩
  | ok s₁ =>
    constructor
    · exact fun h => ⟨s₁, rfl, (hlast s₁).symm.trans h⟩
    · rintro ⟨_, ⟨⟩, h⟩
      exact (hlast s₁).trans h

/-! ### Polls -/

/-- **What a task does** when its time has come: nothing if it became void, and otherwise it announces
a stop or makes a step. -/
inductive Does (I : Interpreter σ) (s : Session σ) : TimedTask → Session σ → Prop where
  | nothing {task : TimedTask} : Does I s task s
  | announces {location : SourceLocation} (hstatus : s.engine.status = .suspending) :
      Does I s (.enterSuspended s.engine.epoch location) (s.enterSuspended I location)
  | steps {s' : Session σ} (hstatus : s.engine.status = .suspended) (hs' : s.stepIn I = .ok s') :
      Does I s (.autoStep s.engine.generation) s'

/-- A task that comes to an end did one of the three. -/
theorem does_of_runTask {I : Interpreter σ} {s s' : Session σ} {task : TimedTask}
    (hs' : s.runTask I task = .ok s') : s.Does I task s' := by
  cases task with
  | enterSuspended epoch location =>
    unfold runTask at hs'
    dsimp only at hs'
    split at hs'
    · next hnow =>
      obtain ⟨rfl, hstatus⟩ := hnow
      cases hs'
      exact .announces hstatus
    · cases hs'
      exact .nothing
  | autoStep generation =>
    unfold runTask at hs'
    dsimp only at hs'
    split at hs'
    · next hnow =>
      obtain ⟨-, rfl, hstatus⟩ := hnow
      exact .steps hstatus hs'
    · cases hs'
      exact .nothing

/-- **A poll takes tasks off the list and does them**: what holds from each session to the next holds
from the first to the last. -/
theorem pollAt_relates {R : Session σ → Session σ → Prop} (hrefl : ∀ s, R s s)
    (htrans : ∀ s s₁ s₂, R s s₁ → R s₁ s₂ → R s s₂) {I : Interpreter σ}
    (hpop : ∀ s timers, R s (s.setEngine { s.engine with timers }))
    (htask : ∀ s task s', s.Does I task s' → R s s') {s s' : Session σ} {now : Time} {budget : Nat}
    (hs' : s.pollAt I now budget = .ok s') : R s s' := by
  -- over the tasks that are due
  induction budget generalizing s with
  | zero => cases hs'
  | succ budget ih =>
    unfold pollAt at hs'
    split at hs'
    · cases hs'
      exact hrefl _
    · next task timers _ =>
      cases hdone : (s.setEngine { s.engine with timers }).runTask I task with
      | error reason =>
        rw [hdone] at hs'
        cases hs'
      | ok s₁ =>
        rw [hdone] at hs'
        have hfirst := htask _ task s₁ (does_of_runTask hdone)
        exact htrans _ _ _ (htrans _ _ _ (hpop s timers) hfirst) (ih hs')

end Session

/-- **What can be done to a session over the machine.** -/
inductive Deed where
  | operation (op : Operation)
  | launch (program : Program) (stopOnEntry : Bool)

namespace Session

/-- Does something to a session over the machine, with a budget for each entry into it. -/
def undertake (fuel : Nat) (s : Session Machine) : Deed → Except Stop (Session Machine)
  | .operation op => s.perform (Machine.interpreter fuel) op
  | .launch program stopOnEntry => (s.launch fuel program stopOnEntry).map Prod.snd

/-- **Does several things to a session over the machine.** -/
def undertakeAll (fuel : Nat) (s : Session Machine) : List Deed → Except Stop (Session Machine)
  | [] => .ok s
  | deed :: deeds => (s.undertake fuel deed).bind fun s => s.undertakeAll fuel deeds

end Session

/-- The status that an event announces. -/
def Event.status? : Event → Option Status
  | .stateUpdated status _ => some status
  | _ => none

namespace Engine

/-- The statuses announced so far. -/
def announced (e : Engine) : List Status := e.events.toList.filterMap Event.status?

theorem announced_emit (e : Engine) (event : Event) :
    (e.emit event).announced = e.announced ++ event.status?.toList := by
  unfold announced emit
  rw [Array.toList_push, List.filterMap_append]
  cases h : event.status? <;> simp [h]

/-! ### Tweaks -/

/-- **What a client may set**: nothing of it touches the status, the parked frames, the waiting calls
or what a run leaves behind. -/
def Tweaks (e e' : Engine) : Prop :=
  ∃ stepping generation breakpoints unsaved clock timers loaded events,
    e' = { e with stepping, generation, breakpoints, unsaved, clock, timers, loaded, events } ∧
      e'.announced = e.announced

theorem Tweaks.refl (e : Engine) : e.Tweaks e := ⟨_, _, _, _, _, _, _, _, rfl, rfl⟩

theorem Tweaks.trans {e e' e'' : Engine} (h : e.Tweaks e') (h' : e'.Tweaks e'') : e.Tweaks e'' := by
  obtain ⟨_, _, _, _, _, _, _, _, rfl, ha⟩ := h
  obtain ⟨_, _, _, _, _, _, _, _, rfl, ha'⟩ := h'
  exact ⟨_, _, _, _, _, _, _, _, rfl, ha'.trans ha⟩

/-- An event that announces no status is a tweak. -/
theorem tweaks_emit (e : Engine) {event : Event} (h : event.status? = none) :
    e.Tweaks (e.emit event) := by
  refine ⟨_, _, _, _, _, _, _, _, rfl, ?_⟩
  have hannounced := announced_emit e event
  rw [h, Option.toList_none, List.append_nil] at hannounced
  exact hannounced

theorem tweaks_step (e : Engine) (stepping : Stepping) (generation : Nat) :
    e.Tweaks { e with stepping, generation } := ⟨_, _, _, _, _, _, _, _, rfl, rfl⟩

theorem tweaks_timers (e : Engine) (timers : Timers) : e.Tweaks { e with timers } :=
  ⟨_, _, _, _, _, _, _, _, rfl, rfl⟩

theorem tweaks_setClock (e : Engine) (now : Time) : e.Tweaks (e.setClock now) :=
  ⟨_, _, _, _, _, _, _, _, rfl, rfl⟩

theorem tweaks_takeUnsaved (e : Engine) : e.Tweaks e.takeUnsaved.2 :=
  ⟨_, _, _, _, _, _, _, _, rfl, rfl⟩

theorem tweaks_pause (e : Engine) : e.Tweaks e.pause := by
  unfold pause
  split
  · exact tweaks_step e _ _
  · exact .refl e

/-- New breakpoints, put down to be saved. -/
theorem tweaks_breakpoints (e : Engine) (breakpoints : Breakpoints) (part : Save) :
    e.Tweaks ({ e with breakpoints }.put part) := ⟨_, _, _, _, _, _, _, _, rfl, rfl⟩

theorem tweaks_toggleStops (e : Engine) : e.Tweaks e.toggleStops.2 :=
  (tweaks_breakpoints e _ _).trans (tweaks_emit _ rfl)

theorem tweaks_toggledBreakpoint (e : Engine) (file : String) (line : Nat) :
    e.Tweaks (e.toggledBreakpoint file line) := by
  refine toggledBreakpoint_relates (.refl e) .trans tweaks_toggleStops file line ?_
  intro isSet breakpoints _
  exact (tweaks_breakpoints e _ _).trans (tweaks_emit _ rfl)

theorem tweaks_fileLoaded (e : Engine) (jsonUrl : String) (path? : Option String)
    (fetch : String → Except String String) : e.Tweaks (e.fileLoaded jsonUrl path? fetch).2 := by
  unfold fileLoaded
  dsimp only
  split
  · exact .trans ⟨_, _, _, _, _, _, _, _, rfl, rfl⟩ (tweaks_emit _ rfl)
  · exact .trans ⟨_, _, _, _, _, _, _, _, rfl, rfl⟩ (tweaks_emit _ rfl)

/-! ### Reports -/

/-- **What a report changes**: the error log, and what is announced of it. -/
def Reports (e e' : Engine) : Prop :=
  ∃ errors events, e' = { e with errors, events } ∧ e'.announced = e.announced

theorem Reports.refl (e : Engine) : e.Reports e := ⟨_, _, rfl, rfl⟩

theorem Reports.trans {e e' e'' : Engine} (h : e.Reports e') (h' : e'.Reports e'') :
    e.Reports e'' := by
  obtain ⟨_, _, rfl, ha⟩ := h
  obtain ⟨_, _, rfl, ha'⟩ := h'
  exact ⟨_, _, rfl, ha'.trans ha⟩

theorem reports_announce (e : Engine) (index : ErrorIndex) : e.Reports (e.announce index).2 := by
  unfold announce
  split
  · next record errors _ =>
    have hannounced := announced_emit { e with errors } (.error record)
    exact ⟨_, _, rfl, hannounced.trans (List.append_nil _)⟩
  · exact ⟨_, _, rfl, rfl⟩

theorem reports_uncaught (e : Engine) (error : RuntimeError) :
    e.Reports (e.reportUncaught error).2 := by
  unfold reportUncaught
  split
  · exact reports_announce e _
  · -- an error without an index of its own is adopted first, and announced if that gave it one
    rcases hadopt : e.errors.adopt error e.lastExecuted with ⟨adopted, errors⟩
    have herrors : e.Reports { e with errors } := ⟨_, _, rfl, rfl⟩
    dsimp only
    split
    · exact herrors.trans (reports_announce _ _)
    · exact herrors

theorem reports_text (e : Engine) (message : String) : e.Reports (e.reportText message).2 := by
  unfold reportText
  split
  · exact reports_announce e _
  · exact .refl e

/-- Dealing with an error that escaped is a report, after which no frame is remembered. -/
theorem fail_eq (e : Engine) (error : ExecError) (origin : Option StackEntry) :
    ∃ e', e.Reports e' ∧ (e.fail error origin).2 =
      { e' with stepping := e.stepping.dropTarget, barriers := .empty } := by
  have hfail : (e.fail error origin).2 =
      ((e.normalize error).2.forgetFrames.reportUncaught (e.fail error origin).1).2 := rfl
  have hnormal : e.Reports (e.normalize error).2 := by
    cases error <;> exact ⟨_, _, rfl, rfl⟩
  -- between the two reports the frames are forgotten
  generalize (e.normalize error).2 = e₁ at hfail hnormal
  generalize (e.fail error origin).1 = reported at hfail
  obtain ⟨errors₁, events₁, rfl, h₁⟩ := hnormal
  obtain ⟨errors₂, events₂, h, h₂⟩ :=
    reports_uncaught (forgetFrames { e with errors := errors₁, events := events₁ }) reported
  rw [h] at h₂
  exact ⟨{ e with errors := errors₂, events := events₂ }, ⟨_, _, rfl, h₂.trans h₁⟩, hfail.trans h⟩

end Engine

end BytecodeDebugger
