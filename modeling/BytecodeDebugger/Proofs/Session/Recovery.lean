import BytecodeDebugger.Playback
import BytecodeDebugger.Proofs.Session.Calls
import BytecodeDebugger.Proofs.Session.Faults
import BytecodeDebugger.Proofs.Session.Notices

/-!
# Recovery from a failure

A run that entered parked frames again can fail at any point: before all frames were taken back,
while the program counts as running, or after the run itself asked for another stop. Whatever it did
before, the engine is left running, with no frame remembered, and the calls that waited are made.

The argument has three parts. During such a run the status is never suspended, and every change to
running that is asked for is made (`Engine.Returns`), so that the last one is made too. The stops
that the run began have epochs of their own, and a program that runs has left them behind
(`Engine.Past`). And draining the calls is making them one after another as long as the program runs
(`Session.Replays`).

Main statement: `Session.resumption_recovers`.
-/

namespace BytecodeDebugger

namespace Engine

variable {ticks : Time → Time → Prop} {before e e' : Engine}

/-! ### Back to running -/

/-- **The program can always run again**: no stop of it is announced, and every change to running that
was asked for since `before` was made. -/
structure Returns (before e : Engine) : Prop where
  unannounced : e.status ≠ .suspended
  requests : ∃ more, e.requests.toList = before.requests.toList ++ more ∧
    ∀ r ∈ more, r.new = .running → r.isAllowed = true

theorem requests_transition (e : Engine) (next : Status) (payload : Payload) :
    (e.transition next payload).requests = e.requests.push ⟨e.status, next, e.parked.length⟩ := by
  unfold transition
  dsimp only
  split <;> rfl

/-- Every status but suspended may become running, if it is not running already. -/
theorem mayBecome_running {status : Status} (hsuspended : status ≠ .suspended)
    (hrunning : status ≠ .running) : status.mayBecome .running = true := by
  cases status with
  | running => exact absurd rfl hrunning
  | suspended => exact absurd rfl hsuspended
  | suspending | resuming => rfl

namespace Returns

theorem of_eq (h : Returns before e) (hstatus : e'.status = e.status)
    (hrequests : e'.requests = e.requests) : Returns before e' := by
  refine ⟨?_, ?_⟩
  · rw [hstatus]
    exact h.unannounced
  · rw [hrequests]
    exact h.requests

/-- A request at the end of the list. -/
theorem requests_push {r : StatusRequest}
    (h : ∃ more, e.requests.toList = before.requests.toList ++ more ∧
      ∀ r ∈ more, r.new = .running → r.isAllowed = true)
    (hr : r.new = .running → r.isAllowed = true) :
    ∃ more, (e.requests.push r).toList = before.requests.toList ++ more ∧
      ∀ r ∈ more, r.new = .running → r.isAllowed = true := by
  obtain ⟨more, hmore, hallowed⟩ := h
  refine ⟨more ++ [r], ?_, ?_⟩
  · rw [Array.toList_push, hmore, List.append_assoc]
  · intro r' hr'
    rcases List.mem_append.mp hr' with hr' | hr'
    · exact hallowed r' hr'
    · rw [List.mem_singleton.mp hr']
      exact hr

theorem transition (h : Returns before e) {next : Status} (hnext : next ≠ .suspended)
    (payload : Payload) (hrunning : next = .running → e.status ≠ .running) :
    Returns before (e.transition next payload) := by
  refine ⟨?_, ?_⟩
  · rcases e.transition_cases next payload with ⟨-, hstatus, -⟩ | ⟨-, hstatus, -⟩
    · rw [hstatus]
      exact h.unannounced
    · rw [hstatus]
      exact hnext
  · -- a request is made in any case; one to run is granted where nothing was announced
    rw [requests_transition]
    refine requests_push h.requests fun hnew => ?_
    obtain rfl : next = .running := hnew
    exact mayBecome_running h.unannounced (hrunning rfl)

/-- A program that is told to go on can run again. -/
theorem resuming (e : Engine) : Returns e (e.transition .resuming {}) := by
  refine ⟨?_, ?_⟩
  · rw [status_resuming]
    exact Status.noConfusion
  · rw [requests_transition]
    exact requests_push ⟨[], (List.append_nil _).symm, by simp⟩ Status.noConfusion

/-- Handing back an entry asks for running only with the last one, and while the program does not
run. -/
theorem handOver (h : Returns before e) (hs : e.status = .resuming) (inner : List Resumable) :
    Returns before (e.handOver inner) := by
  have hparked : Returns before { e with parked := inner } := h.of_eq rfl rfl
  unfold Engine.handOver
  dsimp only
  split
  · refine hparked.transition Status.noConfusion {} fun _ => ?_
    rw [show ({ e with parked := inner } : Engine).status = .resuming from hs]
    exact Status.noConfusion
  · exact hparked

theorem popOutermost {entry : Resumable} (h : Returns before e) (hs : e.status = .resuming)
    (hpop : e.popOutermost = some (entry, e')) : Returns before e' := by
  unfold Engine.popOutermost at hpop
  split at hpop
  · cases hpop
  · cases hpop
    exact h.handOver hs _

/-- **Every answer to an interpreter** leaves it so that the program can run again. -/
theorem reply (h : Returns before e) (call : HookCall) : Returns before (Engine.reply call e).2 := by
  cases call with
  | before site =>
    unfold Engine.reply
    dsimp only
    split
    · have hparked : Returns before { e.park (.call site.frame) with
          barriers := e.barriers.insert site.frame (locationOf site)
          epoch := e.epoch + 1 } := h.of_eq rfl rfl
      exact (hparked.transition Status.noConfusion { location := some (locationOf site) }
        Status.noConfusion).of_eq rfl rfl
    · exact h.of_eq rfl rfl
  | after frame pc opcode failure => cases failure <;> exact h.of_eq rfl rfl
  | park entry => exact h.of_eq rfl rfl
  | takeResume =>
    change Returns before e.takeResume.2
    -- only with the last entry the program is asked to run
    unfold takeResume
    split
    · next hs =>
      split
      · exact h
      · exact h.handOver hs _
    · exact h
  | isResuming => exact h
  | raise message => exact h.of_eq rfl rfl

end Returns

/-! ### The engine after a failed run -/

/-- **No frame is remembered, and the program runs.** -/
structure Clean (e : Engine) : Prop where
  target : e.stepping.target = none
  barriers : e.barriers = .empty
  parked : e.parked = []
  running : e.status = .running

/-- What is left of a stop is given up, and the program runs. -/
theorem abandonSuspension_eq (htarget : e.stepping.target = none) (hbarriers : e.barriers = .empty) :
    e.abandonSuspension = if e.status = .running then { e with parked := [] }
      else ({ e with parked := [] } : Engine).transition .running {} := by
  have hdropped : (if e.parked.isEmpty then e else { e with parked := [] }.forgetFrames) =
      { e with parked := [] } := by
    split
    · next hparked => rw [← List.isEmpty_iff.mp hparked]
    -- what is forgotten was forgotten already
    · unfold forgetFrames Stepping.dropTarget
      rw [← hbarriers, ← htarget]
  unfold abandonSuspension
  rw [hdropped]

/-- Giving up what is left of a stop leaves the engine clean, if the program can run again. -/
theorem clean_abandonSuspension (h : Returns before e) (htarget : e.stepping.target = none)
    (hbarriers : e.barriers = .empty) :
    e.abandonSuspension.Clean ∧ Returns before e.abandonSuspension := by
  have hdropped : Returns before { e with parked := [] } := h.of_eq rfl rfl
  rw [abandonSuspension_eq htarget hbarriers]
  split
  · next hrunning => exact ⟨⟨htarget, hbarriers, rfl, hrunning⟩, hdropped⟩
  · next hrunning =>
    refine ⟨?_, hdropped.transition Status.noConfusion {} fun _ => hrunning⟩
    have hallowed := mayBecome_running h.unannounced hrunning
    rw [transition_allowed (e := { e with parked := [] }) hallowed]
    exact ⟨htarget, hbarriers, rfl, rfl⟩

/-- **A run that failed is cleaned up after**, whatever it did, if the program can run again. -/
theorem clean_afterResuming (h : Returns before e) (error : ExecError)
    (origin : Option StackEntry) : (e.afterResuming origin (.error error)).Clean ∧
      Returns before (e.afterResuming origin (.error error)) := by
  obtain ⟨e', ⟨errors, events, rfl, -⟩, hfail⟩ := e.fail_eq error origin
  refine clean_abandonSuspension (e := (e.fail error origin).2) ?_ ?_ ?_
  · rw [hfail]
    exact h.of_eq rfl rfl
  · rw [hfail]
    rfl
  · rw [hfail]

/-! ### Epochs -/

/-- Stops are counted up. -/
theorem Acts.epoch_le (h : Acts ticks e e') : e.epoch ≤ e'.epoch := by
  cases h with
  | adjusts hadjust => exact Nat.le_of_eq hadjust.quiet.epoch.symm
  | goesOn next => exact Nat.le_of_eq (epoch_transition e next {}).symm
  | suspends site hsite =>
    rw [suspendAt_eq hsite]
    exact Nat.le_succ _
  | creates | drops | sets => exact Nat.le_refl _
  | logs index => rw [announce_eq]
  | lands task timers _ location _ snapshot =>
    obtain ⟨later, hland⟩ := land_eq { e with timers }
      { location := some location, snapshot := some snapshot }
    rw [hland]
    exact Nat.le_of_eq (epoch_transition { e with timers } _ _).symm

theorem Evolves.epoch_le (h : Evolves ticks e e') : e.epoch ≤ e'.epoch :=
  h.relates (R := fun e e' => e.epoch ≤ e'.epoch) (fun _ => Nat.le_refl _)
    (fun _ _ _ => Nat.le_trans) fun _ _ hact => hact.epoch_le

end Engine

/-- **A stop that a run begins** has an epoch that no engine before the end of the run exceeds. -/
theorem Attended.epoch_le {α : Type} {t : Attended α} {e e' asked : Engine} {a : α} {site : Site}
    (hrun : t.run Engine.reply e = .ok (a, e'))
    (hasked : (asked, .before site) ∈ t.consultations Engine.reply e)
    (hstop : asked.shouldSuspend site = true) : asked.epoch + 1 ≤ e'.epoch := by
  obtain ⟨e₁, htrail, hends⟩ := t.trail e
  -- the run is cut at the question: the stop counts one up there, and the count never falls
  obtain ⟨past, future, hsplit⟩ := List.append_of_mem hasked
  rw [hsplit, List.map_append, List.map_cons] at htrail
  have hafter : Engine.Evolves Engine.Still _ e₁ := htrail.asked.2.evolves
  have hlater := hafter.epoch_le
  have hbegun : (Engine.reply (.before site) asked).2 = asked.suspendAt site := by
    unfold Engine.reply
    dsimp only
    rw [if_pos hstop]
  rw [hbegun, Engine.suspendAt_eq hstop] at hlater
  rw [hends a e' hrun]
  exact hlater

/-! ### Calls that are made after a run -/

namespace Engine

variable {e e' : Engine}

/-- **The program runs, or has just stopped.** -/
def Up (e : Engine) : Prop := e.status = .running ∨ e.status = .suspending

/-- Nothing is handed back unless the program counts as going on. -/
theorem Up.takeResume (h : e.Up) : e.takeResume = (none, e) := by
  unfold Engine.takeResume
  rw [if_neg]
  intro hresuming
  rcases h with h | h <;> rw [h] at hresuming <;> cases hresuming

/-- A program that runs may stop, and nothing else. -/
theorem Up.reply (h : e.Up) (call : HookCall) : (Engine.reply call e).2.Up := by
  cases call with
  | before site =>
    unfold Engine.reply
    dsimp only
    split
    · next hstop =>
      rw [suspendAt_eq hstop]
      exact .inr rfl
    · exact h
  | after frame pc opcode failure => cases failure <;> exact h
  | park entry => exact h
  | takeResume =>
    change e.takeResume.2.Up
    rw [h.takeResume]
    exact h
  | isResuming => exact h
  | raise message => exact h

theorem Up.fail (h : e.Up) (error : ExecError) (origin : Option StackEntry) :
    (e.fail error origin).2.Up := by
  obtain ⟨e', ⟨_, _, rfl, -⟩, hfail⟩ := e.fail_eq error origin
  rw [hfail]
  exact h

end Engine

namespace Session

variable {σ : Type} {I : Interpreter σ} {s s' : Session σ}

/-- **Waiting calls are made**, from the first on and one after another as long as the program runs;
what ends this is that one of them stopped, or that none is left. -/
inductive Replays (I : Interpreter σ) : Session σ → List DeferredCall → Session σ → Prop where
  | ended {s : Session σ} (h : s.engine.waiting = [] ∨ s.engine.status = .suspending) :
      Replays I s [] s
  | call {s s₁ s' : Session σ} {call : DeferredCall} {waiting made : List DeferredCall}
      (running : s.engine.status = .running) (first : s.engine.waiting = call :: waiting)
      (makes : (Chronicle.start I s call waiting).outcome = .ok s₁) (rest : Replays I s₁ made s') :
      Replays I s (call :: made) s'

theorem up_attend {α : Type} {entry : σ → Attended (α × σ)} {a : α} (h : s.engine.Up)
    (hs' : s.attend entry = .ok (a, s')) : s'.engine.Up :=
  Attended.run_preserves (P := Engine.Up) (fun question _ he => he.reply question) _ h
    (attend_eq_ok.mp hs')

theorem up_start {call : DeferredCall} {waiting : List DeferredCall} (h : s.engine.Up)
    (hs' : (Chronicle.start I s call waiting).outcome = .ok s') : s'.engine.Up := by
  rw [Chronicle.outcome_start] at hs'
  obtain ⟨⟨result, s₁⟩, hattend, rfl⟩ := Attended.exists_of_map_eq_ok hs'
  have hqueue : (s.setEngine { s.engine with waiting }).engine.Up := h
  have hrun := up_attend hqueue hattend
  cases result with
  | ok outcome => exact hrun
  | error error => exact hrun.fail error none

theorem startedCalls_start (I : Interpreter σ) (s : Session σ) (call : DeferredCall)
    (waiting : List DeferredCall) :
    startedCalls (Chronicle.start I s call waiting).happenings = [call] := by
  rw [Chronicle.happenings_start]
  exact congrArg (call :: ·) (calls_consulted _).2

/-- Calls are started in order, also when one of them does not end. -/
theorem startedCalls_drainCalls (I : Interpreter σ) (s : Session σ) (calls : List DeferredCall) :
    startedCalls (Chronicle.drainCalls I s calls).happenings <+: calls := by
  -- over the queue, which is worked off from the front until something stops it
  induction calls generalizing s with
  | nil => exact List.prefix_refl _
  | cons call calls ih =>
    have hstart := startedCalls_start I s call calls
    unfold Chronicle.drainCalls
    split
    · change startedCalls ((Chronicle.start I s call calls).bind _).happenings <+: _
      unfold Chronicle.bind
      split
      · next s₁ _ =>
        rw [startedCalls_append, hstart]
        exact List.cons_prefix_cons.mpr ⟨rfl, ih s₁⟩
      · rw [hstart]
        exact List.cons_prefix_cons.mpr ⟨rfl, List.nil_prefix⟩
    · exact List.nil_prefix

/-- **Draining is making the waiting calls.** -/
theorem replays_drainCalls {calls : List DeferredCall} (hup : s.engine.Up)
    (hw : s.engine.waiting = calls) (hs' : (Chronicle.drainCalls I s calls).outcome = .ok s') :
    s.Replays I (startedCalls (Chronicle.drainCalls I s calls).happenings) s' := by
  -- over the queue: what is made is its front, and the program stays up in between
  induction calls generalizing s with
  | nil =>
    cases hs'
    exact .ended (.inl hw)
  | cons call calls ih =>
    unfold Chronicle.drainCalls at hs' ⊢
    split at hs'
    · next hrunning =>
      obtain ⟨s₁, hs₁, hrest⟩ := Chronicle.outcome_bind_eq_ok.mp hs'
      rw [if_pos hrunning]
      change Replays I s (startedCalls ((Chronicle.start I s call calls).bind _).happenings) s'
      unfold Chronicle.bind
      rw [hs₁]
      dsimp only
      rw [startedCalls_append, startedCalls_start]
      exact .call hrunning hw hs₁ (ih (up_start hup hs₁) (Chronicle.waiting_start hs₁) hrest)
    · next hpaused =>
      cases hs'
      rw [if_neg hpaused]
      exact .ended (.inr (hup.resolve_left hpaused))

/-- The calls that were not made wait as before. -/
theorem Replays.waiting_eq {made : List DeferredCall} (h : s.Replays I made s') :
    s.engine.waiting = made ++ s'.engine.waiting := by
  induction h with
  | ended => rfl
  | call running first makes rest ih =>
    rw [first, List.cons_append, ← ih, Chronicle.waiting_start makes]

/-! ### Commands -/

/-- The session once a command was given, before the program goes on. -/
def ordered (s : Session σ) : Operation → Session σ
  | .stepIn => s.command Stepping.stepIn
  | .stepOver => s.command fun stepping => stepping.stepOver s.engine.innermost?
  | .stepOut =>
    match s.engine.enclosingCall? with
    | some caller => s.command fun stepping => stepping.stepOut caller
    | none => s.command Stepping.resume
  | .resume => s.command Stepping.resume
  | .autoStep => (s.command Stepping.toggleAuto).command Stepping.stepIn
  | _ => s

/-- **The program goes on**, because a command was given or an automatic step fires. Beside what
happens there is the session that is ready for it. -/
inductive GoesOn (I : Interpreter σ) (s : Session σ) : Session σ → Chronicle (Session σ) → Prop where
  | command {op : Operation} (h : op.Reenters s.engine) :
      GoesOn I s (s.ordered op) (Chronicle.perform I s op)
  | autoStep (hauto : s.engine.stepping.auto = true) (hstatus : s.engine.status = .suspended) :
      GoesOn I s (s.command Stepping.stepIn)
        (Chronicle.runTask I s (.autoStep s.engine.generation))

namespace GoesOn

variable {ready : Session σ} {c : Chronicle (Session σ)}

/-- Getting ready is a matter of steps. -/
theorem ready_eq (h : s.GoesOn I ready c) :
    ∃ stepping generation, ready = s.setEngine { s.engine with stepping, generation } := by
  cases h with
  | @command op hop =>
    cases op with
    | stepIn | stepOver | resume | autoStep => exact ⟨_, _, rfl⟩
    | stepOut =>
      unfold ordered
      dsimp only
      split <;> exact ⟨_, _, rfl⟩
    | _ => exact hop.elim
  | autoStep => exact ⟨_, _, rfl⟩

/-- What happens is that the program goes on; at the end it may be announced. -/
theorem chronicle_eq (h : s.GoesOn I ready c) :
    c = Chronicle.resumeThread I ready ∨ c = (Chronicle.resumeThread I ready >>= fun s =>
      pure (s.setEngine (s.engine.emit .resumed))) := by
  cases h with
  | @command op hop =>
    -- every command ends in a resumption; an explicit one announces itself behind it
    cases op with
    | stepIn | stepOver => exact .inl rfl
    | resume => exact .inr rfl
    | stepOut =>
      unfold ordered Chronicle.perform Chronicle.stepOut
      cases s.engine.enclosingCall? with
      | some caller => exact .inl rfl
      | none => exact .inr rfl
    | autoStep =>
      -- the command that switches automatic stepping on makes a step at once
      have hauto : (s.command Stepping.toggleAuto).engine.stepping.auto = true := by
        change (!s.engine.stepping.auto) = true
        rw [hop]
        rfl
      exact .inl (if_pos hauto)
    | _ => exact hop.elim
  | autoStep hauto hstatus => exact .inl (if_pos ⟨hauto, rfl, hstatus⟩)

theorem happenings_eq (h : s.GoesOn I ready c) :
    c.happenings = (Chronicle.resumeThread I ready).happenings := by
  rcases h.chronicle_eq with rfl | rfl
  · rfl
  · exact Chronicle.happenings_bind_pure _ _

theorem outcome_eq (h : s.GoesOn I ready c) (hs' : c.outcome = .ok s') :
    ∃ last, (Chronicle.resumeThread I ready).outcome = .ok last ∧
      (s' = last ∨ s' = last.setEngine (last.engine.emit .resumed)) := by
  rcases h.chronicle_eq with rfl | rfl
  · exact ⟨s', hs', .inl rfl⟩
  · obtain ⟨last, hlast, hs'⟩ := Chronicle.outcome_bind_eq_ok.mp hs'
    cases hs'
    exact ⟨last, hlast, .inr rfl⟩

end GoesOn

/-! ### The main result -/

/-- **A session recovers from an error** with which a run ended. -/
structure Recovers (s failed recovered : Session σ) (error : ExecError) : Prop where
  /-- the error has an index with a record, and is logged unless the index was logged before -/
  reported : ∃ i record, (∀ origin, (failed.engine.fail error origin).1.index = some i) ∧
    recovered.engine.errors.records[i]? = some record ∧
    recovered.engine.errors.log.toList = failed.engine.errors.log.toList ++
      (if failed.engine.errors.logged i then [] else [record]) ∧
    (s.engine.Correlated → record.index = i)
  /-- there is neither a target nor a barrier, nothing is parked and the program runs -/
  clean : recovered.engine.Clean
  /-- no change to running was refused on the way -/
  returned : ∃ more, recovered.engine.requests.toList = s.engine.requests.toList ++ more ∧
    ∀ r ∈ more, r.new = .running → r.isAllowed = true
  waiting : recovered.engine.waiting = s.engine.waiting
  vm : recovered.vm = failed.vm

/-- **An error that escaped is reported**: it has an index with a record, and is logged unless the
index was logged before. -/
theorem reported_fail (e : Engine) (error : ExecError) (origin : Option StackEntry) :
    ∃ i record, (∀ origin, (e.fail error origin).1.index = some i) ∧
      (e.fail error origin).2.errors.records[i]? = some record ∧
      (e.fail error origin).2.errors.log.toList =
        e.errors.log.toList ++ (if e.errors.logged i then [] else [record]) := by
  obtain ⟨record, hrecord, -⟩ := Fault.record_escaped e error origin
  have hlog := (Fault.adds_escaped e error origin).log
  -- the log grows by a line just when the index was not there
  have hline : (Fault.escaped e error origin).line? =
      if e.errors.logged ((e.errors.indexOf? error).getD e.errors.records.size) then none
      else some record := by
    unfold Fault.line? Fault.index?
    dsimp only [Option.bind_some, Fault.engine, Fault.after]
    rw [hrecord]
    rfl
  rw [hline] at hlog
  refine ⟨_, record, fun origin => Fault.index_fail e error origin, hrecord, hlog.trans ?_⟩
  refine congrArg (e.errors.log.toList ++ ·) ?_
  split <;> rfl

/-- **A failed re-entry is recovered from** before any waiting call is made. -/
theorem recovers_reenter {ready failed : Session σ} {entry : Resumable} {e : Engine}
    {error : ExecError} (hpop : (ready.engine.transition .resuming {}).popOutermost = some (entry, e))
    (hfail : (ready.setEngine e).attend (I.reenter entry) = .ok (.error error, failed)) :
    ∃ recovered, (Chronicle.reenter I ready).happenings =
        ((I.reenter entry ready.vm).consultations Engine.reply e).map
          (fun q => .consulted q.1 q.2) ∧
      (Chronicle.reenter I ready).outcome = .ok recovered ∧
      failed.engine.Served recovered.engine ∧ ready.Recovers failed recovered error := by
  set origin : Option StackEntry := entry.frame?.bind fun frame =>
    (I.frame? ready.vm frame).map fun view => ⟨frame, view.pc⟩ with horigin
  -- nothing happens behind the re-entry that the chronicle would note
  have hreenter : Chronicle.reenter I ready =
      Chronicle.attend (ready.setEngine e) (I.reenter entry) >>= fun p =>
        pure (p.2.setEngine (p.2.engine.afterResuming origin p.1)) := by
    unfold Chronicle.reenter
    dsimp only
    rw [hpop]
  have hafter := failed.engine.served_afterResuming origin (.error error)
  refine ⟨failed.setEngine (failed.engine.afterResuming origin (.error error)), ?_, ?_, hafter, ?_⟩
  · rw [hreenter, Chronicle.happenings_bind_pure]
    rfl
  · rw [hreenter]
    exact Chronicle.outcome_bind_eq_ok.mpr ⟨_, hfail, rfl⟩
  · have hstatus := ready.engine.status_resuming
    -- the engine counts as returning from the re-entry on, whatever the interpreter asks
    have hbegun : ready.engine.Returns e :=
      (Engine.Returns.resuming ready.engine).popOutermost hstatus hpop
    have hreturns : ready.engine.Returns failed.engine :=
      Attended.run_preserves (P := ready.engine.Returns) (fun call e he => he.reply call) _ hbegun
        (attend_eq_ok.mp hfail)
    obtain ⟨hclean, hreturned⟩ := Engine.clean_afterResuming hreturns error origin
    refine ⟨?_, hclean, hreturned.requests, ?_, rfl⟩
    · obtain ⟨i, record, hindex, hrecord, hlog⟩ := reported_fail failed.engine error origin
      -- giving up the stop has nothing to do with errors
      have hsame : (failed.engine.afterResuming origin (.error error)).errors =
          (failed.engine.fail error origin).2.errors :=
        (failed.engine.fail error origin).2.sameErrors_abandonSuspension.1
      rw [← hsame] at hrecord hlog
      refine ⟨i, record, hindex, hrecord, hlog, fun hcorrelated => ?_⟩
      have hserved := ((Engine.served_popOutermost hpop).trans
        (served_attend (s := ready.setEngine e) hfail)).trans hafter
      have hresuming := hcorrelated.of_same (Engine.sameErrors_transition ready.engine .resuming {})
      have hevolves : Engine.Evolves Engine.Still _ _ := hserved.evolves
      exact (hresuming.evolves hevolves).numbered i record hrecord
    · -- the queue is nowhere touched
      have hrun : failed.engine.waiting = e.waiting := Chronicle.waiting_attend hfail
      have hqueue : e.waiting = ready.engine.waiting :=
        (Accounted.waiting_popOutermost hpop).trans (Engine.waiting_transition _ _ _)
      exact (Accounted.waiting_afterResuming _ _ _).trans (hrun.trans hqueue)

/-- **A failed run leaves a clean engine**, for every interpreter, whatever the engine was like before,
and whatever the run asked on the way. Let a command be given, or an automatic step fire, let the
outermost parked entry be popped, and let the run that enters it end with an error.

Then the session recovers: the error is reported, no frame is remembered, nothing is parked and the
program runs, without a change to running that was refused. From there the calls that waited are
made in order, until one of them stops or none is left; also when one does not end, those started so
far are the first ones. And the stops that the failed run began are never announced. -/
theorem resumption_recovers (I : Interpreter σ) {s ready failed : Session σ}
    {c : Chronicle (Session σ)} {entry : Resumable} {e : Engine} {error : ExecError}
    (hgo : s.GoesOn I ready c)
    (hpop : (ready.engine.transition .resuming {}).popOutermost = some (entry, e))
    (hfail : (ready.setEngine e).attend (I.reenter entry) = .ok (.error error, failed)) :
    ∃ recovered, s.Recovers failed recovered error ∧
      c.happenings =
        ((I.reenter entry s.vm).consultations Engine.reply e).map (fun q => .consulted q.1 q.2) ++
          (Chronicle.drainCalls I recovered recovered.engine.waiting).happenings ∧
      startedCalls c.happenings <+: s.engine.waiting ∧
      ∀ s', c.outcome = .ok s' →
        (∃ last, recovered.Replays I (startedCalls c.happenings) last ∧
          (s' = last ∨ s' = last.setEngine (last.engine.emit .resumed))) ∧
        ∀ asked site, (asked, .before site) ∈ (I.reenter entry s.vm).consultations Engine.reply e →
          asked.shouldSuspend site = true →
          ∀ location, s'.IsVoid I (.enterSuspended (asked.epoch + 1) location) := by
  obtain ⟨stepping, generation, rfl⟩ := hgo.ready_eq
  obtain ⟨recovered, hreentered, houtcome, hserved, hrecovers⟩ := recovers_reenter hpop hfail
  -- getting ready neither reports an error nor changes the status
  have hrecovers' : s.Recovers failed recovered error := by
    obtain ⟨⟨i, record, hindex, hrecord, hlog, hnumbered⟩, hclean, hreturned, hwaiting, hvm⟩ :=
      hrecovers
    exact ⟨⟨i, record, hindex, hrecord, hlog, fun h => hnumbered (h.of_same ⟨rfl, rfl⟩)⟩, hclean,
      hreturned, hwaiting, hvm⟩
  -- the resumption splits into the re-entry, which failed, and the replay of the queue
  have hresumed : (Chronicle.resumeThread I (s.setEngine { s.engine with stepping, generation })) =
      ⟨(Chronicle.reenter I (s.setEngine { s.engine with stepping, generation })).happenings ++
        (Chronicle.drainCalls I recovered recovered.engine.waiting).happenings,
        (Chronicle.drainCalls I recovered recovered.engine.waiting).outcome⟩ := by
    change (Chronicle.reenter I _).bind _ = _
    unfold Chronicle.bind
    rw [houtcome]
  have hhappenings := hgo.happenings_eq
  rw [hresumed, hreentered] at hhappenings
  have hstarted : startedCalls c.happenings =
      startedCalls (Chronicle.drainCalls I recovered recovered.engine.waiting).happenings := by
    rw [hhappenings, startedCalls_append, (calls_consulted _).2, List.nil_append]
  refine ⟨recovered, hrecovers', hhappenings, ?_, fun s' hs' => ?_⟩
  · rw [hstarted, ← hrecovers'.waiting]
    exact startedCalls_drainCalls I recovered _
  · obtain ⟨last, hlast, hs'⟩ := hgo.outcome_eq hs'
    rw [hresumed] at hlast
    refine ⟨⟨last, ?_, hs'⟩, fun asked site hasked hstop location => isVoid_of_past ?_ location⟩
    · rw [hstarted]
      exact replays_drainCalls (.inl hrecovers'.clean.running) rfl hlast
    · -- the program ran again after the stop was begun, so that the stop is over
      have hbegun : asked.epoch + 1 ≤ failed.engine.epoch :=
        Attended.epoch_le (attend_eq_ok.mp hfail) hasked hstop
      have hpast : recovered.engine.Past (asked.epoch + 1) := by
        have hrecovered : Engine.Evolves Engine.Still failed.engine recovered.engine :=
          hserved.evolves
        refine ⟨hbegun.trans hrecovered.epoch_le, fun _ => ?_⟩
        rw [hrecovers'.clean.running]
        exact Status.noConfusion
      have hdrained : Engine.Evolves Engine.Still recovered.engine last.engine :=
        (Chronicle.follows_drainCalls I recovered _).evolves hlast
      rcases hs' with rfl | rfl
      · exact hpast.evolves hdrained
      · have hresumed : Engine.Evolves Engine.Still last.engine (last.engine.emit .resumed) :=
          Engine.Adjusts.resumed.evolves
        exact (hpast.evolves hdrained).evolves hresumed

end Session

/-- A call that stops on its first line. When it goes on it stops on the second, but instead of ending
there it fails. -/
def stopsAndFails : Player where
  frames := SortedMap.ofList [(0, {})]
  scripts := [[.before 0 0 1 0 false none (some [])],
    [.before 0 1 2 0 false none none, .fail { message := "broken" }], [.complete []]]

/-- The step fails after it began a stop of its own. The call behind it is made nevertheless, and the
stop is never announced. -/
theorem Session.failure_after_a_stop :
    ∃ s s' recovered last : Session Player,
      Session.performAll Player.interpreter ⟨.start {} {} 0, stopsAndFails⟩
        [.pause, .submit ⟨.nil, []⟩, .submit ⟨.boolean true, []⟩] = .ok s ∧
      s.engine.waiting.length = 1 ∧ s.perform Player.interpreter .stepIn = .ok s' ∧
      recovered.engine.Clean ∧ recovered.Replays Player.interpreter s.engine.waiting last ∧
      s'.IsVoid Player.interpreter (.enterSuspended 2 ⟨"", 2⟩) := by
  let site : Site := ⟨0, "", 2, 2, 0, false⟩
  -- the step fails, and on the way asks in front of the second line, where it is held up
  have hstopped : (Session.performAll Player.interpreter ⟨.start {} {} 0, stopsAndFails⟩
      [.pause, .submit ⟨.nil, []⟩, .submit ⟨.boolean true, []⟩]).map (fun s =>
        (((s.ordered .stepIn).engine.transition .resuming {}).popOutermost.any fun p =>
          (((s.ordered .stepIn).setEngine p.2).attend
              (Player.interpreter.reenter p.1)).toOption.any (fun q => q.1.toOption.isNone) &&
            ((Player.interpreter.reenter p.1 s.vm).consultations Engine.reply p.2).any fun q =>
              q.2 = .before site && q.1.epoch = 1 && q.1.shouldSuspend site,
          s.engine.waiting.length,
          (s.perform Player.interpreter .stepIn).map fun s' => s'.engine.waiting.length)) =
      .ok (true, 1, .ok 0) := by
    decide +kernel
  obtain ⟨s, hs, hstopped⟩ := Attended.exists_of_map_eq_ok hstopped
  obtain ⟨hfails, hstopped⟩ := Prod.mk.inj hstopped
  obtain ⟨hone, hstep⟩ := Prod.mk.inj hstopped
  obtain ⟨s', hs', hnone⟩ := Attended.exists_of_map_eq_ok hstep
  obtain ⟨⟨entry, e⟩, hpop, hfails⟩ := (Option.any_eq_true _ _).mp hfails
  obtain ⟨hfails, hstop⟩ := Bool.and_eq_true_iff.mp hfails
  obtain ⟨⟨result, failed⟩, hfail, hresult⟩ := Attended.exists_of_any_toOption hfails
  obtain ⟨⟨asked, question⟩, hasked, hstop⟩ := List.any_eq_true.mp hstop
  simp only [Bool.and_eq_true, decide_eq_true_eq] at hstop
  obtain ⟨⟨rfl, hepoch⟩, hstop⟩ := hstop
  cases result with
  | ok outcome => cases hresult
  | error error =>
    have hgo : s.GoesOn Player.interpreter (s.ordered .stepIn) _ := .command trivial
    obtain ⟨recovered, hrecovers, -, -, hends⟩ :=
      Session.resumption_recovers Player.interpreter hgo hpop hfail
    rw [← Chronicle.outcome_perform] at hs'
    obtain ⟨⟨last, hreplays, hlast⟩, hvoid⟩ := hends s' hs'
    rw [Chronicle.outcome_perform] at hs'
    -- no call waits at the end
    have hmade := hreplays.waiting_eq
    have hidle : last.engine.waiting = [] := by
      rcases hlast with rfl | rfl <;> exact List.length_eq_zero_iff.mp hnone
    rw [hrecovers.waiting, hidle, List.append_nil] at hmade
    rw [← hmade] at hreplays
    have hvoid := hvoid asked site hasked hstop ⟨"", 2⟩
    rw [hepoch] at hvoid
    exact ⟨s, s', recovered, last, hs, hone, hs', hrecovers.clean, hreplays, hvoid⟩

end BytecodeDebugger
