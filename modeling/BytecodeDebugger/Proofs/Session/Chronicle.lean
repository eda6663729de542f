import BytecodeDebugger.Proofs.Attended
import BytecodeDebugger.Proofs.Session.Operation

/-!
# What happens in a session

The operations of a session give its state when they end, and nothing when they do not. Statements
about everything that happens on the way, also in an operation that never comes to an end, are made
about its `Chronicle`: the calls that were submitted, the calls that were started and the questions
that the interpreter put to the engine, in order, beside the outcome.

`Chronicle.perform` and its companions repeat the operations of a session step by step and note what
happens; `outcome_perform` and `outcome_performAll` say that they are the same operations.
-/

namespace BytecodeDebugger

/-- **Something that happens in a session.** -/
inductive Happening where
  /-- the host submits a call -/
  | submitted (call : DeferredCall)
  /-- the interpreter is told to make a call -/
  | started (call : DeferredCall)
  /-- the interpreter asks the engine, which answers from this state -/
  | consulted (engine : Engine) (call : HookCall)

/-- **What happens on the way to an outcome.** -/
structure Chronicle (α : Type) where
  happenings : List Happening
  outcome : Except Stop α

theorem Session.attend_eq {σ α : Type} (s : Session σ) (entry : σ → Attended (α × σ)) :
    s.attend entry =
      ((entry s.vm).run Engine.reply s.engine).map fun p => (p.1.1, ⟨p.2, p.1.2⟩) := by
  unfold attend
  cases (entry s.vm).run Engine.reply s.engine <;> rfl

/-- What running the interpreter with the engine as its hook gives. -/
theorem Session.attend_eq_ok {σ α : Type} {s s' : Session σ} {entry : σ → Attended (α × σ)} {a : α} :
    s.attend entry = .ok (a, s') ↔
      (entry s.vm).run Engine.reply s.engine = .ok ((a, s'.vm), s'.engine) := by
  unfold Session.attend
  cases (entry s.vm).run Engine.reply s.engine with
  | error reason => simp
  | ok p =>
    constructor
    · intro h
      cases h
      rfl
    · intro h
      cases h
      rfl

namespace Chronicle

variable {σ α β : Type}

/-- One chronicle after another. What comes after a stop does not happen. -/
protected def bind (c : Chronicle α) (f : α → Chronicle β) : Chronicle β :=
  match c.outcome with
  | .ok a => ⟨c.happenings ++ (f a).happenings, (f a).outcome⟩
  | .error reason => ⟨c.happenings, .error reason⟩

instance : Monad Chronicle where
  pure a := ⟨[], .ok a⟩
  bind := Chronicle.bind

/-- Something happens. -/
def note (happening : Happening) : Chronicle Unit := ⟨[happening], .ok ()⟩

/-- Nothing happens on the way to an outcome. -/
def silent (outcome : Except Stop α) : Chronicle α := ⟨[], outcome⟩

@[simp] theorem outcome_note (happening : Happening) : (note happening).outcome = .ok () := rfl

@[simp] theorem outcome_bind (c : Chronicle α) (f : α → Chronicle β) :
    (c >>= f).outcome = c.outcome.bind fun a => (f a).outcome := by
  change (c.bind f).outcome = _
  unfold Chronicle.bind
  cases c.outcome <;> rfl

/-- A chronicle of two parts has an outcome if both parts have one. -/
theorem outcome_bind_eq_ok {c : Chronicle α} {f : α → Chronicle β} {b : β} :
    (c >>= f).outcome = .ok b ↔ ∃ a, c.outcome = .ok a ∧ (f a).outcome = .ok b := by
  rw [outcome_bind]
  constructor
  · intro h
    cases hc : c.outcome with
    | error reason =>
      rw [hc] at h
      cases h
    | ok a =>
      rw [hc] at h
      exact ⟨a, rfl, h⟩
  · rintro ⟨a, hc, hb⟩
    rw [hc]
    exact hb

/-! ### The operations, with what happens -/

/-- Runs the interpreter with the engine as its hook. -/
def attend (s : Session σ) (entry : σ → Attended (α × σ)) : Chronicle (α × Session σ) where
  happenings := ((entry s.vm).consultations Engine.reply s.engine).map fun p => .consulted p.1 p.2
  outcome := s.attend entry

/-- Starts a call, behind which other calls wait, and deals with its failure. -/
def start (I : Interpreter σ) (s : Session σ) (call : DeferredCall) (waiting : List DeferredCall) :
    Chronicle (Session σ) := do
  let s := s.setEngine { s.engine with waiting }
  note (.started call)
  let (result, s) ← attend s (I.call call.function call.args)
  match result with
  | .ok _ => return s
  | .error error => return s.setEngine (s.engine.fail error none).2

/-- Makes waiting calls as long as the program runs. -/
def drainCalls (I : Interpreter σ) (s : Session σ) : List DeferredCall → Chronicle (Session σ)
  | [] => return s
  | call :: calls =>
    if s.engine.status = .running then do
      let s ← start I s call calls
      drainCalls I s calls
    else return s

/-- Enters the outermost parked entry again, and the others with it. -/
def reenter (I : Interpreter σ) (s : Session σ) : Chronicle (Session σ) :=
  let e := s.engine.transition .resuming {}
  match e.popOutermost with
  | none => return s.setEngine (e.transition .running {})
  | some (entry, e) => do
    -- where the frame stood before it went on, for an error that names no place
    let origin := entry.frame?.bind fun frame =>
      (I.frame? s.vm frame).map fun view => (⟨frame, view.pc⟩ : StackEntry)
    let (result, s) ← attend (s.setEngine e) (I.reenter entry)
    return s.setEngine (s.engine.afterResuming origin result)

/-- Lets the program go on. -/
def resumeThread (I : Interpreter σ) (s : Session σ) : Chronicle (Session σ) := do
  let s ← reenter I s
  drainCalls I s s.engine.waiting

/-- A call from the host. -/
def submit (I : Interpreter σ) (s : Session σ) (call : DeferredCall) : Chronicle (Session σ) := do
  note (.submitted call)
  if s.engine.status = .running then start I s call s.engine.waiting
  else return s.setEngine { s.engine with waiting := s.engine.waiting ++ [call] }

/-- Goes on to the next instruction. -/
def stepIn (I : Interpreter σ) (s : Session σ) : Chronicle (Session σ) :=
  resumeThread I (s.command Stepping.stepIn)

/-- Goes on without stepping. -/
def resume (I : Interpreter σ) (s : Session σ) : Chronicle (Session σ) := do
  let s ← resumeThread I (s.command Stepping.resume)
  return s.setEngine (s.engine.emit .resumed)

/-- Goes on to the next instruction of the calling frame. -/
def stepOut (I : Interpreter σ) (s : Session σ) : Chronicle (Session σ) :=
  match s.engine.enclosingCall? with
  | some caller => resumeThread I (s.command fun stepping => stepping.stepOut caller)
  | none => resume I s

/-- Does what was put off, unless it became void. -/
def runTask (I : Interpreter σ) (s : Session σ) : TimedTask → Chronicle (Session σ)
  -- a notice counts for the stop that sent it, and only until the session goes on
  | .enterSuspended epoch location =>
    if epoch = s.engine.epoch ∧ s.engine.status = .suspending then
      return s.enterSuspended I location
    else return s
  | .autoStep generation =>
    if s.engine.stepping.auto = true ∧ generation = s.engine.generation
        ∧ s.engine.status = .suspended then
      stepIn I s
    else return s

/-- Does everything that is due at `now`. -/
def pollAt (I : Interpreter σ) (now : Time) : Nat → Session σ → Chronicle (Session σ)
  | 0, _ => ⟨[], .error .outOfFuel⟩
  | fuel + 1, s =>
    match s.engine.timers.popDue now with
    | none => return s
    | some (task, timers) => do
      let s ← runTask I (s.setEngine { s.engine with timers }) task
      pollAt I now fuel s

/-- **Performs an operation.** -/
def perform (I : Interpreter σ) (s : Session σ) : Operation → Chronicle (Session σ)
  | .submit call => submit I s call
  | .stepIn => stepIn I s
  | .stepOver => resumeThread I (s.command fun stepping => stepping.stepOver s.engine.innermost?)
  | .stepOut => stepOut I s
  | .resume => resume I s
  | .autoStep =>
    let s := s.command Stepping.toggleAuto
    if s.engine.stepping.auto then stepIn I s else return s
  -- nothing below runs code, so that nothing happens but the change itself
  | .pause => return s.setEngine s.engine.pause
  | .toggleBreakpoint file line => silent (s.toggle file line)
  | .toggleStops => return s.setEngine s.engine.toggleStops.2
  | .setClock now => return s.setEngine (s.engine.setClock now)
  | .poll budget => pollAt I s.engine.clock budget s
  | .fileLoaded jsonUrl path? fetch =>
    return s.setEngine (s.engine.fileLoaded jsonUrl path? fetch).2
  | .takeUnsaved => return s.setEngine s.engine.takeUnsaved.2
  | .reportUncaught error => return s.setEngine (s.engine.reportUncaught error).2
  | .reportText message => return s.setEngine (s.engine.reportText message).2

/-- **Performs operations in order.** -/
def performAll (I : Interpreter σ) (s : Session σ) : List Operation → Chronicle (Session σ)
  | [] => return s
  | op :: ops => do
    let s ← perform I s op
    performAll I s ops

/-- Launches a program. -/
def launch (fuel : Nat) (program : Program) (stopOnEntry : Bool) (s : Session Machine) :
    Chronicle (Session Machine) :=
  let engine :=
    (s.engine.fileLoaded program.file program.chunk.sourcePath fun _ => program.source).2
  let (main, vm) := s.vm.load program.chunk program.file
  let engine := if stopOnEntry then engine.pause else engine
  submit (Machine.interpreter fuel) ⟨engine, vm⟩ ⟨.function main, []⟩

/-- Does something to a session over the machine. -/
def undertake (fuel : Nat) (s : Session Machine) : Deed → Chronicle (Session Machine)
  | .operation op => perform (Machine.interpreter fuel) s op
  | .launch program stopOnEntry => launch fuel program stopOnEntry s

/-- **Does several things to a session over the machine.** -/
def undertakeAll (fuel : Nat) (s : Session Machine) : List Deed → Chronicle (Session Machine)
  | [] => return s
  | deed :: deeds => do
    let s ← undertake fuel s deed
    undertakeAll fuel s deeds

/-! ### What happens -/

/-- Nothing happens when an outcome is worked on. -/
theorem happenings_bind_pure (c : Chronicle α) (f : α → β) :
    (c >>= fun a => pure (f a)).happenings = c.happenings := by
  change (c.bind fun a => pure (f a)).happenings = c.happenings
  unfold Chronicle.bind
  split
  · exact List.append_nil _
  · rfl

/-- A call is started, and then the interpreter asks. -/
theorem happenings_start (I : Interpreter σ) (s : Session σ) (call : DeferredCall)
    (waiting : List DeferredCall) :
    (start I s call waiting).happenings = .started call ::
      ((I.call call.function call.args s.vm).consultations Engine.reply
        { s.engine with waiting }).map fun p => .consulted p.1 p.2 := by
  -- dealing with the result asks nothing
  have hrest : ∀ s₀ : Session σ, (attend s₀ (I.call call.function call.args) >>= fun p =>
      match p.1 with
      | .ok _ => pure p.2
      | .error error => (pure (p.2.setEngine (p.2.engine.fail error none).2) :
          Chronicle (Session σ))).happenings = (attend s₀ (I.call call.function call.args)).happenings := by
    intro s₀
    rw [← happenings_bind_pure (attend s₀ (I.call call.function call.args)) fun p => match p.1 with
      | .ok _ => p.2
      | .error error => p.2.setEngine (p.2.engine.fail error none).2]
    refine congrArg (fun f => (attend s₀ _ >>= f).happenings) (funext fun p => ?_)
    cases p.1 <;> rfl
  exact congrArg (.started call :: ·) (hrest _)

/-! ### They are the same operations -/

section Outcomes

variable (I : Interpreter σ)

/-- A call that is started is made, and its failure dealt with. -/
theorem outcome_start (s : Session σ) (call : DeferredCall) (waiting : List DeferredCall) :
    (start I s call waiting).outcome =
      ((s.setEngine { s.engine with waiting }).attend (I.call call.function call.args)).map
        fun p => match p.1 with
          | .ok _ => p.2
          | .error error => p.2.setEngine (p.2.engine.fail error none).2 := by
  simp only [start, outcome_bind, outcome_note, attend, Except.bind]
  cases (s.setEngine { s.engine with waiting }).attend (I.call call.function call.args) with
  | error reason => rfl
  | ok p =>
    obtain ⟨result, s'⟩ := p
    cases result <;> rfl

theorem outcome_drainCalls (s : Session σ) (calls : List DeferredCall) :
    (drainCalls I s calls).outcome = s.drainCalls I calls := by
  -- over the queue; the chronicle makes the same calls, whatever their results
  induction calls generalizing s with
  | nil => rfl
  | cons call calls ih =>
    unfold drainCalls Session.drainCalls
    split
    · rw [outcome_bind, outcome_start]
      dsimp only
      cases (s.setEngine { s.engine with waiting := calls }).attend
          (I.call call.function call.args) with
      | error reason => rfl
      | ok p =>
        obtain ⟨result, s'⟩ := p
        cases result <;> exact ih _
    · rfl

theorem outcome_resumeThread (s : Session σ) :
    (resumeThread I s).outcome = s.resumeThread I := by
  unfold resumeThread Session.resumeThread Session.drain
  rw [outcome_bind]
  -- re-entry is written out in the operation, and the calls are drained on both of its branches
  unfold reenter
  dsimp only
  cases (s.engine.transition .resuming {}).popOutermost with
  | none => exact outcome_drainCalls I _ _
  | some p =>
    obtain ⟨entry, e⟩ := p
    dsimp only
    rw [outcome_bind]
    simp only [attend]
    cases (s.setEngine e).attend (I.reenter entry) with
    | error reason => rfl
    | ok p => exact outcome_drainCalls I _ _

theorem outcome_submit (s : Session σ) (call : DeferredCall) :
    (submit I s call).outcome = (s.execute I call.function call.args).map Prod.snd := by
  unfold submit Session.execute
  rw [outcome_bind]
  simp only [outcome_note, Except.bind]
  split
  · rw [outcome_start]
    -- while the program runs, the queue is left as it is
    have hsame : s.setEngine { s.engine with waiting := s.engine.waiting } = s := rfl
    rw [hsame]
    cases s.attend (I.call call.function call.args) with
    | error reason => rfl
    | ok p =>
      obtain ⟨result, s'⟩ := p
      cases result with
      | error error => rfl
      | ok outcome => cases outcome <;> rfl
  · rfl

theorem outcome_resume (s : Session σ) : (resume I s).outcome = s.resume I := by
  unfold resume Session.resume
  rw [outcome_bind, outcome_resumeThread]
  rfl

theorem outcome_stepOut (s : Session σ) : (stepOut I s).outcome = s.stepOut I := by
  unfold stepOut Session.stepOut
  cases s.engine.enclosingCall? with
  | none => exact outcome_resume I s
  | some caller => exact outcome_resumeThread I _

theorem outcome_runTask (s : Session σ) (task : TimedTask) :
    (runTask I s task).outcome = s.runTask I task := by
  cases task with
  | enterSuspended epoch location =>
    unfold runTask Session.runTask
    dsimp only
    split <;> rfl
  | autoStep generation =>
    unfold runTask Session.runTask
    dsimp only
    split
    · exact outcome_resumeThread I _
    · rfl

theorem outcome_pollAt (now : Time) (fuel : Nat) (s : Session σ) :
    (pollAt I now fuel s).outcome = s.pollAt I now fuel := by
  -- over the budget, one task after the other on both sides
  induction fuel generalizing s with
  | zero => rfl
  | succ fuel ih =>
    unfold pollAt Session.pollAt
    cases s.engine.timers.popDue now with
    | none => rfl
    | some p =>
      obtain ⟨task, timers⟩ := p
      dsimp only
      rw [outcome_bind, outcome_runTask]
      exact congrArg _ (funext ih)

/-- **The operation with its happenings is the operation.** -/
theorem outcome_perform (s : Session σ) (op : Operation) :
    (perform I s op).outcome = s.perform I op := by
  -- what lets the program go on is a resumption in either
  cases op with
  | submit call => exact outcome_submit I s call
  | stepIn => exact outcome_resumeThread I _
  | stepOver => exact outcome_resumeThread I _
  | stepOut => exact outcome_stepOut I s
  | resume => exact outcome_resume I s
  | poll budget => exact outcome_pollAt I _ _ s
  | autoStep =>
    unfold perform Session.perform Session.autoStep
    dsimp only
    split
    · rw [show (stepIn I (s.command Stepping.toggleAuto)).outcome =
        (s.command Stepping.toggleAuto).stepIn I from outcome_resumeThread I _]
      cases (s.command Stepping.toggleAuto).stepIn I <;> rfl
    · rfl
  | pause | toggleBreakpoint _ _ | toggleStops | setClock _ | fileLoaded _ _ _ | takeUnsaved
  | reportUncaught _ | reportText _ => rfl

theorem outcome_performAll (s : Session σ) (ops : List Operation) :
    (performAll I s ops).outcome = s.performAll I ops := by
  induction ops generalizing s with
  | nil => rfl
  | cons op ops ih =>
    unfold performAll Session.performAll
    rw [outcome_bind, outcome_perform]
    exact congrArg _ (funext ih)

theorem outcome_undertake (fuel : Nat) (s : Session Machine) (deed : Deed) :
    (undertake fuel s deed).outcome = s.undertake fuel deed := by
  cases deed with
  | operation op => exact outcome_perform _ s op
  | launch program stopOnEntry => exact outcome_submit _ _ _

theorem outcome_undertakeAll (fuel : Nat) (s : Session Machine) (deeds : List Deed) :
    (undertakeAll fuel s deeds).outcome = s.undertakeAll fuel deeds := by
  induction deeds generalizing s with
  | nil => rfl
  | cons deed deeds ih =>
    unfold undertakeAll Session.undertakeAll
    rw [outcome_bind, outcome_undertake]
    exact congrArg _ (funext ih)

end Outcomes

end Chronicle

end BytecodeDebugger
