import BytecodeDebugger.Playback
import BytecodeDebugger.Proofs.Engine.Correlation
import BytecodeDebugger.Proofs.Session.Evolution

/-!
# The errors of a session

`Session.faults` lists everything by which errors reach the engine while operations are performed, in
order and each with the engine at that moment: what the interpreter asks for, what escapes from a
call or from frames that were entered again, and what is reported. The list accounts for every
record and for every line of the log (`Course`), because nothing else that an operation does has to
do with errors.

The main statement is `Session.errors_correlated`: over any interpreter, and whatever is done to a new
session, errors are numbered, recorded, logged and announced exactly once.
-/

namespace BytecodeDebugger

open Engine (SameErrors)

/-! ### Faults in order -/

namespace Fault

/-- The fault of a question, if an error is asked for. -/
def ofQuestion : Engine × HookCall → Option Fault
  | (e, .raise message) => some (.raised e message)
  | _ => none

/-- What follows an outcome that there is. -/
def next {α : Type} (outcome : Except Stop α) (f : α → List Fault) : List Fault :=
  match outcome with
  | .ok a => f a
  | .error _ => []

end Fault

namespace Session

variable {σ : Type} (I : Interpreter σ)

/-- The faults of an entry into the interpreter. -/
def entryFaults (s : Session σ) (entry : σ → Attended (RunResult × σ)) (origin : Option StackEntry) :
    List Fault :=
  ((entry s.vm).consultations Engine.reply s.engine).filterMap Fault.ofQuestion ++
    Fault.next (s.attend entry) fun p => match p.1 with
      | .ok _ => []
      | .error error => [.escaped p.2.engine error origin]

/-- The faults of a call. -/
def startFaults (s : Session σ) (call : DeferredCall) (waiting : List DeferredCall) : List Fault :=
  (s.setEngine { s.engine with waiting }).entryFaults (I.call call.function call.args) none

/-- The faults of waiting calls. -/
def drainFaults (s : Session σ) : List DeferredCall → List Fault
  | [] => []
  | call :: calls =>
    if s.engine.status = .running then
      s.startFaults I call calls ++
        Fault.next (Chronicle.start I s call calls).outcome fun s => s.drainFaults calls
    else []

/-- The faults of frames that are entered again. -/
def reenterFaults (s : Session σ) : List Fault :=
  match (s.engine.transition .resuming {}).popOutermost with
  | none => []
  | some (entry, e) =>
    (s.setEngine e).entryFaults (I.reenter entry) <| entry.frame?.bind fun frame =>
      (I.frame? s.vm frame).map fun view => (⟨frame, view.pc⟩ : StackEntry)

/-- The faults of a program that goes on. -/
def resumeFaults (s : Session σ) : List Fault :=
  s.reenterFaults I ++
    Fault.next (Chronicle.reenter I s).outcome fun s => s.drainFaults I s.engine.waiting

/-- The faults of a task. -/
def taskFaults (s : Session σ) : TimedTask → List Fault
  | .enterSuspended _ _ => []
  | .autoStep generation =>
    if s.engine.stepping.auto = true ∧ generation = s.engine.generation
        ∧ s.engine.status = .suspended then
      (s.command Stepping.stepIn).resumeFaults I
    else []

/-- The faults of a poll. -/
def pollFaults (now : Time) : Nat → Session σ → List Fault
  | 0, _ => []
  | budget + 1, s =>
    match s.engine.timers.popDue now with
    | none => []
    | some (task, timers) =>
      (s.setEngine { s.engine with timers }).taskFaults I task ++
        Fault.next ((s.setEngine { s.engine with timers }).runTask I task) (pollFaults now budget)

/-- The faults of an operation. -/
def operationFaults (s : Session σ) : Operation → List Fault
  | .submit call =>
    if s.engine.status = .running then s.startFaults I call s.engine.waiting else []
  | .stepIn => (s.command Stepping.stepIn).resumeFaults I
  | .stepOver => (s.command fun stepping => stepping.stepOver s.engine.innermost?).resumeFaults I
  | .stepOut =>
    match s.engine.enclosingCall? with
    | some caller => (s.command fun stepping => stepping.stepOut caller).resumeFaults I
    | none => (s.command Stepping.resume).resumeFaults I
  | .resume => (s.command Stepping.resume).resumeFaults I
  | .autoStep =>
    if (s.command Stepping.toggleAuto).engine.stepping.auto then
      ((s.command Stepping.toggleAuto).command Stepping.stepIn).resumeFaults I
    else []
  | .poll budget => pollFaults I s.engine.clock budget s
  | .reportUncaught error => [.reported s.engine error]
  | .reportText message => [.reportedText s.engine message]
  | _ => []

/-- **The faults of operations**, in order. -/
def faults (s : Session σ) : List Operation → List Fault
  | [] => []
  | op :: ops => s.operationFaults I op ++ Fault.next (s.perform I op) fun s => s.faults ops

end Session

/-! ### Nothing else has to do with errors -/

/-- **A course of faults**: between them nothing happens to the errors. -/
def Course (e : Engine) : List Fault → Engine → Prop
  | [], e' => e.SameErrors e'
  | x :: xs, e' => e.SameErrors x.engine ∧ Course x.after xs e'

namespace Course

variable {e e₁ e' : Engine} {xs ys : List Fault}

theorem before (hbefore : e.SameErrors e₁) (h : Course e₁ xs e') : Course e xs e' := by
  cases xs with
  | nil => exact hbefore.trans h
  | cons x xs => exact ⟨hbefore.trans h.1, h.2⟩

theorem append (h : Course e xs e₁) (h' : Course e₁ ys e') : Course e (xs ++ ys) e' := by
  induction xs generalizing e with
  | nil => exact before h h'
  | cons x xs ih => exact ⟨h.1, ih h.2⟩

/-- **The faults account for** the records, the log and the announcements. -/
theorem accounts (h : Course e xs e') :
    e'.errors.records.toList = e.errors.records.toList ++ xs.filterMap Fault.made? ∧
      e'.errors.log.toList = e.errors.log.toList ++ xs.filterMap Fault.line? ∧
      e'.reported = e.reported ++ xs.filterMap Fault.line? := by
  -- one step of `filterMap`, in the form in which all three lists need it
  have hcons : ∀ {f : Fault → Option ErrorRecord} (x : Fault) (xs : List Fault),
      (x :: xs).filterMap f = (f x).toList ++ xs.filterMap f := by
    intro f x xs
    cases hx : f x with
    | none => rw [List.filterMap_cons_none hx]; rfl
    | some r => rw [List.filterMap_cons_some hx]; rfl
  -- over the faults, each of which adds what it adds to what is there before it
  induction xs generalizing e with
  | nil =>
    obtain ⟨herrors, hreported⟩ := h
    rw [herrors, hreported]
    exact ⟨(List.append_nil _).symm, (List.append_nil _).symm, (List.append_nil _).symm⟩
  | cons x xs ih =>
    obtain ⟨⟨herrors, hreported⟩, hrest⟩ := h
    obtain ⟨hrecords, hlog, htold⟩ := ih hrest
    have hadds := x.adds
    rw [hrecords, hlog, htold, hadds.records, hadds.log, hadds.reported, herrors, hreported]
    simp only [hcons, List.append_assoc, and_self]

/-- The records that faults make are numbered on. -/
theorem numbers (h : Course e xs e') : (xs.filterMap Fault.made?).map (·.index) =
    List.range' e.errors.records.size (xs.filterMap Fault.made?).length := by
  -- the log never loses a record, so that the next number is how many there are
  induction xs generalizing e with
  | nil => rfl
  | cons x xs ih =>
    obtain ⟨⟨herrors, -⟩, hrest⟩ := h
    have hrecords := x.adds.records
    rw [herrors] at hrecords
    have hsize := congrArg List.length hrecords
    rw [List.length_append, Array.length_toList, Array.length_toList] at hsize
    have hnext := ih hrest
    cases hmade : x.made? with
    -- no record is made here, and the numbering goes on as it was
    | none =>
      rw [hmade] at hsize
      rw [List.filterMap_cons_none hmade, hnext, hsize]
      rfl
    | some r =>
      -- a record is numbered by how many there are before it
      have hindex : r.index = e.errors.records.size := by
        rw [← herrors]
        exact x.index_of_made hmade
      rw [hmade] at hsize
      rw [List.filterMap_cons_some hmade, List.map_cons, List.length_cons, List.range'_succ, hnext,
        hsize, hindex]
      rfl

/-- Every fault meets an engine that is correlated. -/
theorem correlated (h : Course e xs e') (he : e.Correlated) : ∀ x ∈ xs, x.engine.Correlated := by
  induction xs generalizing e with
  | nil => exact fun x hx => absurd hx List.not_mem_nil
  | cons x xs ih =>
    obtain ⟨hsame, hrest⟩ := h
    have hx := he.of_same hsame
    intro y hy
    rcases List.mem_cons.mp hy with rfl | hy
    · exact hx
    · exact ih hrest (hx.evolves x.evolves_after) y hy

end Course

/-- **Faults lead to an outcome**: they are the course of errors up to its engine, if there is one. -/
def Leads {α : Type} (e : Engine) (xs : List Fault) (outcome : Except Stop α) (final : α → Engine) :
    Prop :=
  ∃ e', Course e xs e' ∧ ∀ a, outcome = .ok a → final a = e'

namespace Leads

variable {α β : Type} {e e₁ : Engine} {xs : List Fault} {outcome : Except Stop α}
  {final : α → Engine}

theorem done {a : α} (h : e.SameErrors (final a)) : Leads e [] (.ok a) final :=
  ⟨final a, h, fun b hb => by cases hb; rfl⟩

theorem silent (h : ∀ a, outcome = .ok a → e.SameErrors (final a)) : Leads e [] outcome final := by
  cases outcome with
  | error reason => exact ⟨e, .refl e, fun a ha => by cases ha⟩
  | ok a => exact .done (h a rfl)

theorem before (hbefore : e.SameErrors e₁) (h : Leads e₁ xs outcome final) :
    Leads e xs outcome final := by
  obtain ⟨e', hcourse, hends⟩ := h
  exact ⟨e', hcourse.before hbefore, hends⟩

/-- One outcome after another. -/
theorem next {f : α → List Fault} {g : α → Except Stop β} {final' : β → Engine}
    (h : Leads e xs outcome final)
    (hf : ∀ a, outcome = .ok a → Leads (final a) (f a) (g a) final') :
    Leads e (xs ++ Fault.next outcome f) (outcome.bind g) final' := by
  obtain ⟨e₁, hcourse, hends⟩ := h
  cases outcome with
  | error reason =>
    refine ⟨e₁, ?_, fun b hb => by cases hb⟩
    -- behind a stop nothing is done, and nothing is at fault
    rw [show Fault.next (.error reason : Except Stop α) f = [] from rfl, List.append_nil]
    exact hcourse
  | ok a =>
    obtain ⟨e₂, hcourse', hends'⟩ := hf a rfl
    rw [hends a rfl] at hcourse'
    exact ⟨e₂, hcourse.append hcourse', hends'⟩

end Leads

namespace Engine

theorem sameErrors_takeResume (e : Engine) : e.SameErrors e.takeResume.2 := by
  unfold takeResume
  split
  · split
    · exact .refl e
    · next entry inner _ =>
      have hparked : e.SameErrors { e with parked := inner } := ⟨rfl, rfl⟩
      dsimp only
      split
      · exact hparked.trans (sameErrors_transition _ _ _)
      · exact hparked
  · exact .refl e

/-- Only one question asks for an error. -/
theorem sameErrors_reply (e : Engine) {call : HookCall} (h : ∀ message, call ≠ .raise message) :
    e.SameErrors (reply call e).2 := by
  cases call with
  | before site =>
    unfold reply
    dsimp only
    split
    · exact sameErrors_suspendAt e site
    · exact ⟨rfl, rfl⟩
  | after frame pc opcode failure => cases failure <;> exact ⟨rfl, rfl⟩
  | park entry => exact ⟨rfl, rfl⟩
  | takeResume => exact sameErrors_takeResume e
  | isResuming => exact .refl e
  | raise message => exact absurd rfl (h message)

theorem sameErrors_abandonSuspension (e : Engine) : e.SameErrors e.abandonSuspension := by
  -- dropping what is parked and changing the status are looked at one after the other
  have hdrop : e.SameErrors
      (if e.parked.isEmpty then e else { e with parked := [] }.forgetFrames) := by
    split
    · exact .refl e
    · exact ⟨rfl, rfl⟩
  unfold abandonSuspension
  dsimp only
  generalize (if e.parked.isEmpty then e else { e with parked := [] }.forgetFrames) = dropped
    at hdrop ⊢
  split
  · exact hdrop
  · exact hdrop.trans (sameErrors_transition _ _ _)

theorem sameErrors_popOutermost {e e' : Engine} {entry : Resumable}
    (h : e.popOutermost = some (entry, e')) : e.SameErrors e' := by
  unfold popOutermost at h
  split at h
  · cases h
  · next outermost inner _ =>
    cases h
    have hparked : e.SameErrors { e with parked := inner } := ⟨rfl, rfl⟩
    split
    · exact hparked.trans (sameErrors_transition _ _ _)
    · exact hparked

end Engine

theorem Chronicle.outcome_attend_bind {σ α β : Type} (s : Session σ) (entry : σ → Attended (α × σ))
    (f : α × Session σ → β) :
    (Chronicle.attend s entry >>= fun p => pure (f p)).outcome = (s.attend entry).map f := by
  rw [Chronicle.outcome_bind]
  unfold Chronicle.attend
  dsimp only
  cases s.attend entry <;> rfl

/-- The questions of a run make up its faults. -/
theorem Attended.course {α : Type} (t : Attended α) (e : Engine) :
    Leads e ((t.consultations Engine.reply e).filterMap Fault.ofQuestion)
      (t.run Engine.reply e) Prod.snd := by
  -- over the run: only `raise` makes a record, and every other question leaves the errors alone
  induction t generalizing e with
  | done a => exact .done (.refl e)
  | stop reason => exact ⟨e, .refl e, fun _ h => by cases h⟩
  | ask call next ih =>
    have hrest := ih (Engine.reply call e).1 (Engine.reply call e).2
    rw [Attended.consultations, Attended.run_ask]
    by_cases hraise : ∃ message, call = .raise message
    · obtain ⟨message, rfl⟩ := hraise
      obtain ⟨e', hcourse, hends⟩ := hrest
      exact ⟨e', ⟨.refl e, hcourse⟩, hends⟩
    · have hquiet : ∀ message, call ≠ .raise message := fun message h => hraise ⟨message, h⟩
      have hnone : Fault.ofQuestion (e, call) = none := by
        cases call with
        | raise message => exact absurd rfl (hquiet message)
        | _ => rfl
      rw [List.filterMap_cons_none hnone]
      exact hrest.before (e.sameErrors_reply hquiet)

namespace Session

variable {σ : Type} (I : Interpreter σ) (s : Session σ)

theorem leads_attend {α : Type} (entry : σ → Attended (α × σ)) :
    Leads s.engine (((entry s.vm).consultations Engine.reply s.engine).filterMap Fault.ofQuestion)
      (s.attend entry) fun p => p.2.engine := by
  obtain ⟨e', hcourse, hends⟩ := (entry s.vm).course s.engine
  refine ⟨e', hcourse, ?_⟩
  rintro ⟨a, s'⟩ hs'
  exact hends _ (attend_eq_ok.mp hs')

/-- **An entry whose failure is dealt with.** -/
theorem leads_entry (entry : σ → Attended (RunResult × σ)) (origin : Option StackEntry)
    (after : RunResult × Session σ → Session σ)
    (hok : ∀ outcome (s' : Session σ), s'.engine.SameErrors (after (.ok outcome, s')).engine)
    (herror : ∀ error (s' : Session σ), (s'.engine.fail error origin).2.SameErrors
      (after (.error error, s')).engine) :
    Leads s.engine (s.entryFaults entry origin) ((s.attend entry).map after) fun s => s.engine := by
  -- `map` as `bind`, so that what comes afterwards is one more part of the course
  have hmap : (s.attend entry).map after = (s.attend entry).bind fun p => .ok (after p) := by
    cases s.attend entry <;> rfl
  rw [hmap]
  refine (leads_attend s entry).next ?_
  rintro ⟨result, s'⟩ -
  cases result with
  | ok outcome => exact .done (hok outcome s')
  | error error => exact ⟨_, ⟨.refl _, herror error s'⟩, fun b hb => by cases hb; rfl⟩

theorem leads_start (call : DeferredCall) (waiting : List DeferredCall) :
    Leads s.engine (s.startFaults I call waiting) (Chronicle.start I s call waiting).outcome
      fun s => s.engine := by
  rw [Chronicle.outcome_start]
  have hqueue : s.engine.SameErrors { s.engine with waiting } := ⟨rfl, rfl⟩
  refine .before hqueue (leads_entry (s.setEngine { s.engine with waiting }) _ none _ ?_ ?_)
  · exact fun outcome s' => .refl _
  · exact fun error s' => .refl _

theorem leads_drain (calls : List DeferredCall) :
    Leads s.engine (s.drainFaults I calls) (s.drainCalls I calls) fun s => s.engine := by
  rw [← Chronicle.outcome_drainCalls]
  induction calls generalizing s with
  | nil => exact .done (.refl _)
  | cons call calls ih =>
    unfold drainFaults Chronicle.drainCalls
    split
    · rw [Chronicle.outcome_bind]
      exact (leads_start I s call calls).next fun s' _ => ih s'
    · exact .done (.refl _)

theorem leads_reenter :
    Leads s.engine (s.reenterFaults I) (Chronicle.reenter I s).outcome fun s => s.engine := by
  have hresuming := Engine.sameErrors_transition s.engine .resuming {}
  unfold reenterFaults Chronicle.reenter
  dsimp only
  cases hpop : (s.engine.transition .resuming {}).popOutermost with
  -- nothing is parked: the status changes twice, and that is all
  | none => exact .done (hresuming.trans (Engine.sameErrors_transition _ _ _))
  | some p =>
    obtain ⟨entry, e⟩ := p
    dsimp only
    rw [Chronicle.outcome_attend_bind]
    -- the status and the parked entries change in silence before the frame is entered again
    refine .before (hresuming.trans (Engine.sameErrors_popOutermost hpop)) ?_
    refine leads_entry (s.setEngine e) _ _ _ ?_ ?_
    · -- a run that ends or stops again adds nothing of its own
      intro outcome s'
      cases outcome with
      | suspended => exact .refl _
      | completed values =>
        unfold Engine.afterResuming
        dsimp only
        split
        · exact Engine.sameErrors_abandonSuspension _
        · exact .refl _
    · -- the error was reported, and only the stop is abandoned behind it
      intro error s'
      exact Engine.sameErrors_abandonSuspension _

theorem leads_resumeThread :
    Leads s.engine (s.resumeFaults I) (s.resumeThread I) fun s => s.engine := by
  rw [← Chronicle.outcome_resumeThread]
  unfold Chronicle.resumeThread
  rw [Chronicle.outcome_bind]
  refine (leads_reenter I s).next fun s' _ => ?_
  rw [Chronicle.outcome_drainCalls]
  exact leads_drain I s' _

/-- A command that lets the program go on. -/
theorem leads_command (f : Stepping → Stepping) :
    Leads s.engine ((s.command f).resumeFaults I) ((s.command f).resumeThread I)
      fun s => s.engine := by
  have hcommand : s.engine.SameErrors (s.command f).engine := ⟨rfl, rfl⟩
  exact .before hcommand (leads_resumeThread I (s.command f))

theorem leads_resume :
    Leads s.engine ((s.command Stepping.resume).resumeFaults I) (s.resume I) fun s => s.engine := by
  -- the announcement at the end is no fault
  obtain ⟨e', hcourse, hends⟩ := leads_command I s Stepping.resume
  have hresumed : Engine.SameErrors e' (e'.emit .resumed) := (Engine.Quiet.emit e' rfl).sameErrors
  have hcourse' : Course s.engine ((s.command Stepping.resume).resumeFaults I ++ []) _ :=
    hcourse.append hresumed
  rw [List.append_nil] at hcourse'
  refine ⟨_, hcourse', fun s' hs' => ?_⟩
  unfold resume at hs'
  cases hrun : (s.command Stepping.resume).resumeThread I with
  | error reason =>
    rw [hrun] at hs'
    cases hs'
  | ok s₁ =>
    rw [hrun] at hs'
    cases hs'
    exact congrArg (fun e => Engine.emit e .resumed) (hends s₁ hrun)

theorem leads_runTask (task : TimedTask) :
    Leads s.engine (s.taskFaults I task) (s.runTask I task) fun s => s.engine := by
  cases task with
  | enterSuspended epoch location =>
    unfold taskFaults runTask
    dsimp only
    split
    · exact .done (Engine.sameErrors_land _ _)
    · exact .done (.refl _)
  | autoStep generation =>
    unfold taskFaults runTask
    dsimp only
    split
    · exact leads_command I s _
    · exact .done (.refl _)

theorem leads_pollAt (now : Time) (budget : Nat) :
    Leads s.engine (pollFaults I now budget s) (s.pollAt I now budget) fun s => s.engine := by
  -- over the tasks that are due: taking one from the list is silent
  induction budget generalizing s with
  | zero => exact ⟨s.engine, .refl _, fun _ h => by cases h⟩
  | succ budget ih =>
    unfold pollFaults pollAt
    cases s.engine.timers.popDue now with
    | none => exact .done (.refl _)
    | some p =>
      obtain ⟨task, timers⟩ := p
      have hpopped : s.engine.SameErrors { s.engine with timers } := ⟨rfl, rfl⟩
      refine .before hpopped ?_
      exact (leads_runTask I (s.setEngine { s.engine with timers }) task).next fun s' _ => ih s'

/-- **The faults of an operation** lead to its outcome. -/
theorem leads_perform (op : Operation) :
    Leads s.engine (s.operationFaults I op) (s.perform I op) fun s => s.engine := by
  cases op with
  | submit call =>
    rw [← Chronicle.outcome_perform]
    unfold operationFaults Chronicle.perform Chronicle.submit
    rw [Chronicle.outcome_bind]
    -- both branches as the chronicle has them, with the call that is made or the call that waits
    change Leads _ _ (if s.engine.status = .running then
      Chronicle.start I s call s.engine.waiting else _).outcome _
    dsimp only
    split
    · exact leads_start I s call _
    · exact .done ⟨rfl, rfl⟩
  | stepIn => exact leads_command I s _
  | stepOver => exact leads_command I s _
  | stepOut =>
    -- without a caller the step out is a resumption
    unfold operationFaults perform stepOut
    dsimp only
    cases s.engine.enclosingCall? with
    | none => exact leads_resume I s
    | some caller => exact leads_command I s _
  | resume => exact leads_resume I s
  | autoStep =>
    have hcommand : s.engine.SameErrors (s.command Stepping.toggleAuto).engine := ⟨rfl, rfl⟩
    rw [← Chronicle.outcome_perform]
    unfold operationFaults Chronicle.perform
    dsimp only
    split
    · unfold Chronicle.stepIn
      rw [Chronicle.outcome_resumeThread]
      exact .before hcommand (leads_command I (s.command Stepping.toggleAuto) _)
    · exact .done hcommand
  | pause => exact .done (Engine.sameErrors_pause _)
  | toggleBreakpoint file line =>
    refine .silent fun s' hs' => ?_
    rw [Session.eq_of_toggle hs']
    exact (Engine.quiet_toggledBreakpoint _ _ _).sameErrors
  | toggleStops => exact .done (Engine.quiet_toggleStops _).sameErrors
  | setClock now => exact .done ⟨rfl, rfl⟩
  | poll budget => exact leads_pollAt I s _ _
  | fileLoaded jsonUrl path? fetch => exact .done (Engine.quiet_fileLoaded _ _ _ _).sameErrors
  | takeUnsaved => exact .done ⟨rfl, rfl⟩
  | reportUncaught error => exact ⟨_, ⟨.refl _, .refl _⟩, fun _ h => by cases h; rfl⟩
  | reportText message => exact ⟨_, ⟨.refl _, .refl _⟩, fun _ h => by cases h; rfl⟩

/-- **The faults of operations** lead to their outcome. -/
theorem leads_performAll (ops : List Operation) :
    Leads s.engine (s.faults I ops) (s.performAll I ops) fun s => s.engine := by
  induction ops generalizing s with
  | nil => exact .done (.refl _)
  | cons op ops ih => exact (leads_perform I s op).next fun s' _ => ih s'

/-! ### The main result -/

/-- **What operations do to errors.** -/
structure KeepsErrors (ops : List Operation) : Prop where
  /-- at every moment what is logged is recorded, logged once and announced in the same order -/
  correlated : ∀ e ∈ s.engine :: (Chronicle.performAll I s ops).moments, e.Correlated
  /-- from each moment to each later one records and log only grow at their ends -/
  grows : (s.engine :: (Chronicle.performAll I s ops).moments).Pairwise fun e e' =>
    e.errors.Extends e'.errors
  /-- records are numbered on, and an error that is asked for has the number of its record -/
  numbers : ((s.faults I ops).filterMap Fault.made?).map (·.index) =
    List.range' s.engine.errors.records.size ((s.faults I ops).filterMap Fault.made?).length
  raised : ∀ e message, .raised e message ∈ s.faults I ops →
    (e.raise message).1.index = some (e.recordOf message).index
  /-- an error that escapes has a record, the one made for it if there was none; and the record is
  logged unless it was logged before -/
  escaped : ∀ e error origin, .escaped e error origin ∈ s.faults I ops →
    ∃ i record, (e.fail error origin).1.index = some i ∧ record.index = i ∧
      (e.fail error origin).2.errors.records[i]? = some record ∧
      (∀ made, (Fault.escaped e error origin).made? = some made → made = record) ∧
      (Fault.escaped e error origin).line? = if e.errors.logged i then none else some record
  /-- the faults are all that adds records, lines of the log and announcements of errors -/
  accounts : ∀ s', s.performAll I ops = .ok s' →
    s'.engine.errors.records.toList =
        s.engine.errors.records.toList ++ (s.faults I ops).filterMap Fault.made? ∧
      s'.engine.errors.log.toList =
        s.engine.errors.log.toList ++ (s.faults I ops).filterMap Fault.line? ∧
      s'.engine.reported = s.engine.reported ++ (s.faults I ops).filterMap Fault.line?

variable {I s}

/-- The moments of operations evolve out of each other, however the clock is set. -/
theorem moments_performAll (ops : List Operation) :
    (s.engine :: (Chronicle.performAll I s ops).moments).Pairwise
      (Engine.Evolves fun _ _ => True) :=
  (Chronicle.follows_performAll I s ops (isChain_true _)).moments

/-- What is logged at first is logged at every moment. -/
theorem logged_moments {i : ErrorIndex} (h : s.engine.errors.logged i = true)
    (ops : List Operation) :
    ∀ e ∈ s.engine :: (Chronicle.performAll I s ops).moments, e.errors.logged i = true := by
  intro e he
  rcases List.mem_cons.mp he with rfl | he
  · exact h
  · have hevolves := List.rel_of_pairwise_cons (moments_performAll ops) he
    exact hevolves.extends.logged h

theorem keepsErrors (h : s.engine.Correlated) (ops : List Operation) : s.KeepsErrors I ops := by
  have hmoments := moments_performAll (I := I) (s := s) ops
  -- the faults of all operations, in one course from the first engine to the last
  obtain ⟨e', hcourse, hends⟩ := leads_performAll I s ops
  refine ⟨?_, ?_, hcourse.numbers, fun _ _ _ => rfl, ?_, ?_⟩
  · intro e he
    rcases List.mem_cons.mp he with rfl | he
    · exact h
    · exact h.evolves (List.rel_of_pairwise_cons hmoments he)
  · exact hmoments.imp fun hevolves => hevolves.extends
  · intro e error origin hescaped
    have he : e.Correlated := hcourse.correlated h _ hescaped
    exact Fault.line_escaped he error origin
  · intro s' hs'
    have hfinal : s'.engine = e' := hends s' hs'
    rw [hfinal]
    exact hcourse.accounts

/-- The error of a call that fails is logged. -/
theorem logged_execute {function : Value} {args : List Value} {error : RuntimeError}
    {s' : Session σ} (h : s.engine.Correlated)
    (hs' : s.execute I function args = .ok (.failed error, s')) :
    ∃ i, error.index = some i ∧ s'.engine.errors.logged i = true := by
  unfold execute at hs'
  split at hs'
  · cases hrun : s.attend (I.call function args) with
    | error reason =>
      rw [hrun] at hs'
      cases hs'
    | ok p =>
      obtain ⟨result, s₁⟩ := p
      rw [hrun] at hs'
      cases result with
      | ok outcome => cases outcome <;> cases hs'
      | error failure =>
        cases hs'
        -- the log is still in order behind the run, so that the error that escaped is in it
        have hattend : (Chronicle.attend s (I.call function args)).outcome = .ok (_, s₁) := hrun
        have hevolves : Engine.Evolves Engine.Still s.engine s₁.engine :=
          (Chronicle.follows_attend s _).evolves hattend
        exact Fault.logged_escaped (h.evolves hevolves) failure none
  · cases hs'

/-- **Errors are correlated exactly once**, for every interpreter and whatever was done to a new
session. Errors are numbered from zero on, records and log only grow, and the log is what was
announced; an error that escapes adds one line to the log, unless it is logged already; and the error
of a call that failed can be reported again later, as it is or as text, without any effect. -/
theorem errors_correlated (I : Interpreter σ) (config : Config) (saved : SavedSession) (clock : Time)
    (vm : σ) (ops : List Operation) (s : Session σ)
    (hs : performAll I ⟨.start config saved clock, vm⟩ ops = .ok s) :
    (∀ later, s.KeepsErrors I later) ∧
    ∀ function args error s', s.execute I function args = .ok (.failed error, s') →
      ∀ later, ∀ e ∈ s'.engine :: (Chronicle.performAll I s' later).moments,
        e.reportUncaught error = (none, e) ∧ e.reportText error.text = (none, e) := by
  -- the log is in order from the start on
  have hstart : (Engine.start config saved clock).Correlated := .start config saved clock
  have hevolves : Engine.Evolves (fun _ _ => True) (Engine.start config saved clock) s.engine :=
    evolves_performAll hs (isChain_true _)
  have hcorrelated : s.engine.Correlated := hstart.evolves hevolves
  refine ⟨fun later => keepsErrors hcorrelated later, ?_⟩
  intro function args error s' hs' later e he
  -- the error given back is logged, and stays so whatever happens later
  obtain ⟨i, hindex, hlogged⟩ := logged_execute hcorrelated hs'
  have hstill := logged_moments hlogged later e he
  exact ⟨Engine.reportUncaught_logged hindex hstill, Engine.reportText_logged hindex hstill⟩

end Session

/-- Two calls that fail, the second one with a message that looks like the text of the first one. -/
def twoFailures : Player where
  scripts := [[.fail { message := "one" }], [.fail { message := "one [lua-debugger:error:0]" }]]

/-- The second failure is logged as the second one, and its text stands for it. -/
theorem Session.misleading_message :
    ∃ s error s', Session.performAll Player.interpreter ⟨.start {} {} 0, twoFailures⟩
        [.submit ⟨.nil, []⟩] = .ok s ∧
      s.execute Player.interpreter .nil [] = .ok (.failed error, s') ∧
      s'.engine.errors.messages = ["one", "one [lua-debugger:error:0]"] ∧
      s'.engine.reportText error.text = (none, s'.engine) := by
  -- the second message carries a tag of the first one
  have hruns : (Session.performAll Player.interpreter ⟨.start {} {} 0, twoFailures⟩
      [.submit ⟨.nil, []⟩]).map (fun s => (s.execute Player.interpreter .nil []).map fun p =>
        (match p.1 with
          | .failed _ => true
          | .completed _ => false
          | .suspended => false
          | .queued => false, p.2.engine.errors.messages)) =
      .ok (.ok (true, ["one", "one [lua-debugger:error:0]"])) := by
    decide +kernel
  obtain ⟨s, hs, hruns⟩ := Attended.exists_of_map_eq_ok hruns
  obtain ⟨⟨execution, s'⟩, hs', hresult⟩ := Attended.exists_of_map_eq_ok hruns
  obtain ⟨hfailed, hmessages⟩ := Prod.mk.inj hresult
  obtain ⟨-, hreports⟩ := Session.errors_correlated Player.interpreter {} {} 0 twoFailures
    [.submit ⟨.nil, []⟩] s hs
  cases execution with
  | failed error =>
    obtain ⟨-, htext⟩ := hreports .nil [] error s' hs' [] s'.engine List.mem_cons_self
    exact ⟨s, error, s', hs, hs', hmessages, htext⟩
  | _ => cases hfailed

end BytecodeDebugger
