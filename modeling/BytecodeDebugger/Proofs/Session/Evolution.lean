import BytecodeDebugger.Proofs.Engine.Evolution
import BytecodeDebugger.Proofs.Session.Chronicle
import Mathlib.Data.List.Chain

/-!
# How the engine changes in a session

Whatever the interpreter is, the operations of a session change the engine by acts, and each engine
that the interpreter asks something has grown by acts out of the one before (`Trail`). A chronicle
that `Follows` a function of its outcome leaves such a trail, up to the engine of the outcome if
there is one.

Main statements:

* `Chronicle.follows_performAll` — any operations leave a trail, as long as the clock is set to times
  that it may be set to;
* `Session.evolves_performAll`, `Session.evolves_runDue` — the engine after operations, and in the
  middle of a poll, has grown out of the engine before.
-/

namespace BytecodeDebugger

open Engine (Evolves Still)

variable {ticks : Time → Time → Prop}

/-- The time to which an operation sets the clock. -/
def Operation.time? : Operation → Option Time
  | .setClock now => some now
  | _ => none

/-- The times that operations show on the clock, after the present one. -/
def Engine.times (e : Engine) (ops : List Operation) : List Time :=
  e.clock :: ops.filterMap Operation.time?

/-- The operation is a command that lets the program go on. -/
def Operation.Reenters (e : Engine) : Operation → Prop
  | .stepIn => True
  | .stepOver => True
  | .stepOut => True
  | .resume => True
  | .autoStep => e.stepping.auto = false
  | _ => False

/-- **What happens leaves a trail**: every engine that is asked something has grown out of the answer
to the question before. -/
def Trail (ticks : Time → Time → Prop) (e : Engine) : List Happening → Engine → Prop
  | [], e' => Evolves ticks e e'
  | .consulted asked call :: h, e' =>
    Evolves ticks e asked ∧ Trail ticks (Engine.reply call asked).2 h e'
  | .submitted _ :: h, e' => Trail ticks e h e'
  | .started _ :: h, e' => Trail ticks e h e'

namespace Trail

variable {e e₁ e' : Engine} {h h' : List Happening}

theorem evolves (htrail : Trail ticks e h e') : Evolves ticks e e' := by
  induction h generalizing e with
  | nil => exact htrail
  | cons happening h ih =>
    cases happening with
    | consulted asked call =>
      obtain ⟨hasked, hrest⟩ := htrail
      exact (hasked.trans (Engine.served_reply asked call).evolves).trans (ih hrest)
    | submitted call => exact ih htrail
    | started call => exact ih htrail

/-- What goes before a trail lengthens it. -/
theorem before (hbefore : Evolves ticks e e₁) (htrail : Trail ticks e₁ h e') : Trail ticks e h e' := by
  induction h with
  | nil => exact hbefore.trans htrail
  | cons happening h ih =>
    cases happening with
    | consulted asked call => exact ⟨hbefore.trans htrail.1, htrail.2⟩
    | submitted call => exact ih htrail
    | started call => exact ih htrail

theorem append (htrail : Trail ticks e h e₁) (htrail' : Trail ticks e₁ h' e') :
    Trail ticks e (h ++ h') e' := by
  induction h generalizing e with
  | nil => exact before htrail htrail'
  | cons happening h ih =>
    cases happening with
    | consulted asked call => exact ⟨htrail.1, ih htrail.2⟩
    | submitted call => exact ih htrail
    | started call => exact ih htrail

/-- **A question cuts a trail in two.** -/
theorem asked {asked : Engine} {call : HookCall}
    (htrail : Trail ticks e (h ++ .consulted asked call :: h') e') :
    Evolves ticks e asked ∧ Trail ticks (Engine.reply call asked).2 h' e' := by
  -- over what happens before the question; only questions make steps of the engine
  induction h generalizing e with
  | nil => exact htrail
  | cons happening h ih =>
    cases happening with
    | consulted earlier question =>
      obtain ⟨hearlier, hrest⟩ := htrail
      obtain ⟨hasked, hfuture⟩ := ih hrest
      exact ⟨(hearlier.trans (Engine.served_reply earlier question).evolves).trans hasked, hfuture⟩
    | submitted call => exact ih htrail
    | started call => exact ih htrail

end Trail

/-- The engines before and after an answer. -/
def Happening.moments : Happening → List Engine
  | .consulted e call => [e, (Engine.reply call e).2]
  | _ => []

/-- **The moments of a trail** evolve out of each other. -/
theorem Trail.moments {e e' : Engine} {h : List Happening} (htrail : Trail ticks e h e') :
    (e :: (h.flatMap Happening.moments ++ [e'])).Pairwise (Evolves ticks) := by
  -- a step in front is a step to every later engine
  have hcons : ∀ {e e₁ : Engine} {es : List Engine}, Evolves ticks e e₁ →
      (e₁ :: es).Pairwise (Evolves ticks) → (e :: e₁ :: es).Pairwise (Evolves ticks) := by
    intro e e₁ es hfirst hrest
    refine List.pairwise_cons.mpr ⟨fun later hlater => ?_, hrest⟩
    rcases List.mem_cons.mp hlater with rfl | hlater
    · exact hfirst
    · exact hfirst.trans (List.rel_of_pairwise_cons hrest hlater)
  induction h generalizing e with
  | nil => exact hcons htrail (List.pairwise_singleton _ _)
  | cons happening h ih =>
    cases happening with
    | consulted asked call =>
      exact hcons htrail.1 (hcons (Engine.served_reply asked call).evolves (ih htrail.2))
    | submitted call => exact ih htrail
    | started call => exact ih htrail

/-- The questions of a run leave a trail. -/
theorem Attended.trail {α : Type} (t : Attended α) (e : Engine) :
    ∃ e', Trail ticks e ((t.consultations Engine.reply e).map fun p => .consulted p.1 p.2) e' ∧
      ∀ a e₁, t.run Engine.reply e = .ok (a, e₁) → e₁ = e' := by
  induction t generalizing e with
  | done a => exact ⟨e, .refl e, fun _ _ h => by cases h; rfl⟩
  | stop reason => exact ⟨e, .refl e, fun _ _ h => by cases h⟩
  | ask call next ih =>
    obtain ⟨e', htrail, hends⟩ := ih (Engine.reply call e).1 (Engine.reply call e).2
    exact ⟨e', ⟨.refl e, htrail⟩, hends⟩

namespace Chronicle

variable {σ α β : Type}

/-- **A chronicle leaves a trail**, which ends at the engine of its outcome if there is one. -/
def Follows (ticks : Time → Time → Prop) (e : Engine) (c : Chronicle α) (final : α → Engine) : Prop :=
  ∃ e', Trail ticks e c.happenings e' ∧ ∀ a, c.outcome = .ok a → final a = e'

namespace Follows

variable {e e₁ : Engine} {c : Chronicle α} {f : α → Chronicle β} {final : α → Engine}
  {final' : β → Engine}

theorem pure {a : α} (h : Evolves ticks e (final a)) : Follows ticks e (pure a) final :=
  ⟨final a, h, fun b hb => by cases hb; rfl⟩

theorem silent {outcome : Except Stop α} (h : ∀ a, outcome = .ok a → Evolves ticks e (final a)) :
    Follows ticks e (Chronicle.silent outcome) final := by
  cases outcome with
  | error reason => exact ⟨e, .refl e, fun a ha => by cases ha⟩
  | ok a => exact .pure (h a rfl)

/-- One chronicle after another. -/
theorem bind (hc : Follows ticks e c final)
    (hf : ∀ a, c.outcome = .ok a → Follows ticks (final a) (f a) final') :
    Follows ticks e (c >>= f) final' := by
  obtain ⟨e₁, htrail, hends⟩ := hc
  change Follows ticks e (c.bind f) final'
  unfold Chronicle.bind
  split
  · next a ha =>
    obtain ⟨e₂, htrail', hends'⟩ := hf a ha
    rw [hends a ha] at htrail'
    exact ⟨e₂, htrail.append htrail', hends'⟩
  · next reason hreason => exact ⟨e₁, htrail, fun b hb => by cases hb⟩

theorem before (hbefore : Evolves ticks e e₁) (h : Follows ticks e₁ c final) :
    Follows ticks e c final := by
  obtain ⟨e', htrail, hends⟩ := h
  exact ⟨e', .before hbefore htrail, hends⟩

/-- The engine of the outcome has grown out of the engine at first. -/
theorem evolves (h : Follows ticks e c final) {a : α} (ha : c.outcome = .ok a) :
    Evolves ticks e (final a) := by
  obtain ⟨e', htrail, hends⟩ := h
  rw [hends a ha]
  exact htrail.evolves

/-- So has every engine that is asked something. -/
theorem asked (h : Follows ticks e c final) {asked : Engine} {call : HookCall}
    (hasked : .consulted asked call ∈ c.happenings) : Evolves ticks e asked := by
  obtain ⟨e', htrail, -⟩ := h
  obtain ⟨past, future, hsplit⟩ := List.append_of_mem hasked
  rw [hsplit] at htrail
  exact htrail.asked.1

end Follows

/-- **The engines of a chronicle**, in order: before and after every answer, and at the end if there
is one. -/
def moments (c : Chronicle (Session σ)) : List Engine :=
  c.happenings.flatMap Happening.moments ++ c.outcome.toOption.toList.map fun s => s.engine

theorem Follows.moments {e : Engine} {c : Chronicle (Session σ)}
    (h : Follows ticks e c fun s => s.engine) : (e :: c.moments).Pairwise (Evolves ticks) := by
  obtain ⟨e', htrail, hends⟩ := h
  refine htrail.moments.sublist (.cons_cons e ?_)
  unfold Chronicle.moments
  cases houtcome : c.outcome with
  | error reason => exact List.Sublist.append_left (List.nil_sublist _) _
  | ok s =>
    rw [← hends s houtcome]
    exact .refl _

/-! ### The operations of a session -/

section Operations

variable (I : Interpreter σ) (s : Session σ)

theorem follows_note {happening : Happening} (h : ∀ asked call, happening ≠ .consulted asked call)
    (e : Engine) : Follows ticks e (note happening) fun _ => e := by
  cases happening with
  | consulted asked call => exact absurd rfl (h asked call)
  | submitted call => exact ⟨e, .refl e, fun _ _ => rfl⟩
  | started call => exact ⟨e, .refl e, fun _ _ => rfl⟩

theorem follows_attend (entry : σ → Attended (α × σ)) :
    Follows ticks s.engine (attend s entry) fun p => p.2.engine := by
  obtain ⟨e', htrail, hends⟩ := (entry s.vm).trail s.engine
  refine ⟨e', htrail, ?_⟩
  rintro ⟨a, s'⟩ hs'
  exact hends _ _ (Session.attend_eq_ok.mp hs')

theorem follows_start (call : DeferredCall) (waiting : List DeferredCall) :
    Follows ticks s.engine (start I s call waiting) fun s => s.engine := by
  -- the queue changes before the call begins, and that is a step by itself
  have hqueue : Evolves ticks s.engine { s.engine with waiting } :=
    Engine.evolves_notes s.engine _ _ waiting _ _
  refine .before hqueue ?_
  have hnote : Follows ticks { s.engine with waiting } (note (.started call)) fun _ =>
      { s.engine with waiting } := follows_note (fun _ _ h => by cases h) _
  refine .bind hnote fun _ _ => ?_
  refine .bind (follows_attend (s.setEngine { s.engine with waiting }) _) ?_
  rintro ⟨result, s'⟩ -
  cases result with
  | ok outcome => exact .pure (.refl _)
  | error error => exact .pure (Engine.served_fail _ error none).evolves

theorem follows_drainCalls (calls : List DeferredCall) :
    Follows ticks s.engine (drainCalls I s calls) fun s => s.engine := by
  induction calls generalizing s with
  | nil => exact .pure (.refl _)
  | cons call calls ih =>
    unfold drainCalls
    split
    · exact .bind (follows_start I s call calls) fun s' _ => ih s'
    · exact .pure (.refl _)

/-- A re-entry begins as soon as the program counts as going on. -/
theorem follows_reenter :
    Follows ticks (s.engine.transition .resuming {}) (reenter I s) fun s => s.engine := by
  unfold reenter
  dsimp only
  split
  -- nothing is parked, and the program only counts as running again
  · exact .pure (Engine.served_running _).evolves
  · next entry e hpop =>
    refine .before (Engine.served_popOutermost hpop).evolves ?_
    refine .bind (follows_attend (s.setEngine e) (I.reenter entry)) ?_
    rintro ⟨result, s'⟩ -
    exact .pure (Engine.served_afterResuming _ _ result).evolves

theorem follows_resumeThread :
    Follows ticks (s.engine.transition .resuming {}) (resumeThread I s) fun s => s.engine :=
  .bind (follows_reenter I s) fun s' _ => follows_drainCalls I s' _

theorem evolves_command (f : Stepping → Stepping) :
    Evolves ticks s.engine (s.command f).engine :=
  (Engine.Adjusts.commands (f s.engine.stepping)).evolves

/-- **A command that lets the program go on.** -/
theorem follows_command (f : Stepping → Stepping) :
    Follows ticks s.engine (resumeThread I (s.command f)) fun s => s.engine :=
  .before ((evolves_command s f).trans (Engine.Acts.goesOn .resuming (.inl rfl)).evolves)
    (follows_resumeThread I _)

theorem follows_submit (call : DeferredCall) :
    Follows ticks s.engine (submit I s call) fun s => s.engine := by
  unfold submit
  refine .bind (follows_note (fun _ _ h => by cases h) _) fun _ _ => ?_
  split
  · exact follows_start I s call _
  · exact .pure (Engine.evolves_notes s.engine _ _ _ _ _)

theorem follows_stepIn : Follows ticks s.engine (stepIn I s) fun s => s.engine :=
  follows_command I s _

theorem follows_resume : Follows ticks s.engine (resume I s) fun s => s.engine := by
  unfold resume
  refine .bind (follows_command I s _) fun s' _ => ?_
  exact .pure Engine.Adjusts.resumed.evolves

theorem follows_stepOut : Follows ticks s.engine (stepOut I s) fun s => s.engine := by
  unfold stepOut
  split
  · exact follows_command I s _
  · exact follows_resume I s

/-- **A task that is due**, taken off the list. -/
theorem follows_runTask {task : TimedTask} {timers : Timers}
    (hpop : s.engine.timers.popDue s.engine.clock = some (task, timers)) :
    Follows ticks s.engine (runTask I (s.setEngine { s.engine with timers }) task)
      fun s => s.engine := by
  cases task with
  | enterSuspended epoch location =>
    unfold runTask
    dsimp only
    split
    · next hnow =>
      obtain ⟨rfl, hstatus⟩ := hnow
      -- taking the timer and announcing the stop make one step
      exact .pure (Engine.Acts.lands _ timers hpop location ⟨rfl, hstatus⟩ _).evolves
    · next hvoid =>
      -- a notice of another stop, or one that comes too late, is dropped
      refine .pure (Engine.Acts.drops _ timers hpop ?_).evolves
      rintro location' ⟨htask, hstatus⟩
      cases htask
      exact hvoid ⟨rfl, hstatus⟩
  | autoStep generation =>
    have hdrop : Evolves ticks s.engine { s.engine with timers } :=
      (Engine.Acts.drops _ timers hpop fun location h => by cases h.1).evolves
    unfold runTask
    dsimp only
    split
    · exact .before hdrop (follows_stepIn I (s.setEngine { s.engine with timers }))
    · exact .pure hdrop

/-- **A poll**: nothing in it sets the clock, so that what is due at its time is due all the while. -/
theorem follows_pollAt {now : Time} (hnow : s.engine.clock = now) (budget : Nat) :
    Follows ticks s.engine (pollAt I now budget s) fun s => s.engine := by
  -- over the tasks; the clock stands still, so that each is taken at the same time
  induction budget generalizing s with
  | zero => exact ⟨s.engine, .refl _, fun _ h => by cases h⟩
  | succ budget ih =>
    unfold pollAt
    split
    · exact .pure (.refl _)
    · next task timers hpop =>
      rw [← hnow] at hpop
      refine .bind (follows_runTask I s hpop) fun s' hs' => ih s' ?_
      have hclock := ((follows_runTask I s hpop).evolves hs').clock
      exact hclock.trans hnow

/-- **Any operation.** -/
theorem follows_perform (op : Operation) (hclock : ∀ now, op.time? = some now →
    ticks s.engine.clock now) : Follows ticks s.engine (perform I s op) fun s => s.engine := by
  cases op with
  | submit call => exact follows_submit I s call
  | stepIn => exact follows_stepIn I s
  | stepOver => exact follows_command I s _
  | stepOut => exact follows_stepOut I s
  | resume => exact follows_resume I s
  | autoStep =>
    unfold perform
    dsimp only
    split
    · exact .before (evolves_command s _) (follows_stepIn I _)
    · exact .pure (evolves_command s _)
  | pause => exact .pure (Engine.evolves_pause _)
  | toggleBreakpoint file line =>
    refine .silent fun s' hs' => ?_
    rw [Session.eq_of_toggle hs']
    exact (Engine.Adjusts.togglesBreakpoint file line).evolves
  | toggleStops => exact .pure Engine.Adjusts.togglesStops.evolves
  | setClock now => exact .pure (Engine.Acts.sets now (hclock now rfl)).evolves
  | poll budget => exact follows_pollAt I s rfl budget
  | fileLoaded jsonUrl path? fetch =>
    exact .pure (Engine.Adjusts.loads jsonUrl path? fetch).evolves
  | takeUnsaved => exact .pure (Engine.evolves_notes s.engine _ _ _ [] _)
  | reportUncaught error => exact .pure (Engine.served_reportUncaught _ error).evolves
  | reportText message => exact .pure (Engine.served_reportText _ message).evolves

/-- After an operation the clock shows the time to which it was set. -/
theorem clock_perform {s s' : Session σ} {op : Operation} (hs' : (perform I s op).outcome = .ok s') :
    s'.engine.clock = op.time?.getD s.engine.clock := by
  cases hop : op.time? with
  | none =>
    -- what sets no clock is followed by steps that leave it alone
    have hfollows : Follows Still s.engine (perform I s op) fun s => s.engine :=
      follows_perform I s op fun now h => by rw [hop] at h; cases h
    exact (hfollows.evolves hs').clock
  | some now =>
    cases op with
    | setClock time =>
      cases hop
      cases hs'
      rfl
    | _ => cases hop

/-- **Any operations**, if the clock may be set to the times in this order. -/
theorem follows_performAll (ops : List Operation) (hclock : (s.engine.times ops).IsChain ticks) :
    Follows ticks s.engine (performAll I s ops) fun s => s.engine := by
  induction ops generalizing s with
  | nil => exact .pure (.refl _)
  | cons op ops ih =>
    unfold Engine.times at hclock
    have hop : ∀ now, op.time? = some now → ticks s.engine.clock now := by
      intro now hnow
      rw [List.filterMap_cons_some hnow] at hclock
      exact (List.isChain_cons_cons.mp hclock).1
    refine .bind (follows_perform I s op hop) fun s' hs' => ih s' ?_
    unfold Engine.times
    rw [clock_perform I hs']
    -- the times that are left begin at the one that the operation leaves on the clock
    cases hnow : op.time? with
    | none =>
      rw [List.filterMap_cons_none hnow] at hclock
      exact hclock
    | some now =>
      rw [List.filterMap_cons_some hnow] at hclock
      exact (List.isChain_cons_cons.mp hclock).2

/-! ### Commands that let the program go on -/

/-- **A command enters the program again.** It begins by letting the program count as going on. -/
theorem follows_reentry {op : Operation} (hop : op.Reenters s.engine) :
    ∃ stepping generation, Follows ticks
      ({ s.engine with stepping, generation }.transition .resuming {}) (perform I s op)
      fun s => s.engine := by
  -- a command that is no plain resumption, and one that is
  have hgo : ∀ f : Stepping → Stepping, ∃ stepping generation, Follows ticks
      ({ s.engine with stepping, generation }.transition .resuming {})
      (resumeThread I (s.command f)) fun s => s.engine :=
    fun f => ⟨_, _, follows_resumeThread I (s.command f)⟩
  have hresume : ∃ stepping generation, Follows ticks
      ({ s.engine with stepping, generation }.transition .resuming {}) (resume I s)
      fun s => s.engine :=
    ⟨_, _, (follows_resumeThread I (s.command Stepping.resume)).bind fun _ _ =>
      .pure Engine.Adjusts.resumed.evolves⟩
  cases op with
  | stepIn => exact hgo _
  | stepOver => exact hgo _
  | stepOut =>
    unfold perform stepOut
    dsimp only
    split
    · exact hgo _
    · exact hresume
  | resume => exact hresume
  | autoStep =>
    -- switched on, the automatic steps begin with one
    unfold perform
    dsimp only
    rw [if_pos (show (s.command Stepping.toggleAuto).engine.stepping.auto = true by
      change (!s.engine.stepping.auto) = true
      rw [hop]
      rfl)]
    exact ⟨_, _, follows_resumeThread I ((s.command Stepping.toggleAuto).command Stepping.stepIn)⟩
  | _ => exact hop.elim

end Operations

/-! ### Over the machine -/

/-- The launch of a program loads it and makes a call. -/
theorem follows_launch (fuel : Nat) (program : Program) (stopOnEntry : Bool) (s : Session Machine) :
    Follows ticks s.engine (launch fuel program stopOnEntry s) fun s => s.engine := by
  -- the file is announced first, and a stop on entry asked for
  have hbegin : Evolves ticks s.engine
      (if stopOnEntry then
        (s.engine.fileLoaded program.file program.chunk.sourcePath fun _ => program.source).2.pause
      else (s.engine.fileLoaded program.file program.chunk.sourcePath fun _ => program.source).2) := by
    have hfile : Evolves ticks s.engine
        (s.engine.fileLoaded program.file program.chunk.sourcePath fun _ => program.source).2 :=
      (Engine.Adjusts.loads _ _ _).evolves
    cases stopOnEntry with
    | false => exact hfile
    | true => exact hfile.trans (Engine.evolves_pause _)
  unfold launch
  exact .before hbegin (follows_submit _ ⟨_, _⟩ _)

/-- **Whatever is done over the machine**, if the clock is free. -/
theorem follows_undertakeAll (fuel : Nat) (s : Session Machine) (deeds : List Deed) :
    Follows (fun _ _ => True) s.engine (undertakeAll fuel s deeds) fun s => s.engine := by
  induction deeds generalizing s with
  | nil => exact .pure (.refl _)
  | cons deed deeds ih =>
    have hdeed : Follows (fun _ _ => True) s.engine (undertake fuel s deed) fun s => s.engine := by
      cases deed with
      | operation op => exact follows_perform _ s op fun _ _ => trivial
      | launch program stopOnEntry => exact follows_launch fuel program stopOnEntry s
    exact hdeed.bind fun s' _ => ih s'

end Chronicle

namespace Session

variable {σ : Type} {I : Interpreter σ} {s s' : Session σ}

/-- The clock is free. -/
theorem isChain_true (times : List Time) : times.IsChain fun _ _ => True :=
  List.isChain_iff_forall_rel_of_append_cons_cons.mpr fun _ _ _ _ _ => trivial

theorem evolves_performAll {ops : List Operation} (hs' : s.performAll I ops = .ok s')
    (hclock : (s.engine.times ops).IsChain ticks) : Evolves ticks s.engine s'.engine := by
  rw [← Chronicle.outcome_performAll] at hs'
  exact (Chronicle.follows_performAll I s ops hclock).evolves hs'

theorem evolves_undertakeAll {fuel : Nat} {s s' : Session Machine} {deeds : List Deed}
    (hs' : s.undertakeAll fuel deeds = .ok s') : Evolves (fun _ _ => True) s.engine s'.engine := by
  rw [← Chronicle.outcome_undertakeAll] at hs'
  exact (Chronicle.follows_undertakeAll fuel s deeds).evolves hs'

/-! ### Code that runs -/

theorem served_attend {α : Type} {entry : σ → Attended (α × σ)} {a : α}
    (hs' : s.attend entry = .ok (a, s')) : s.engine.Served s'.engine :=
  Attended.run_preserves (P := s.engine.Served) (fun call e he => he.trans (e.served_reply call)) _
    (.refl _) (attend_eq_ok.mp hs')

theorem served_start {call : DeferredCall} {waiting : List DeferredCall}
    (hs' : (Chronicle.start I s call waiting).outcome = .ok s') : s.engine.Served s'.engine := by
  have hqueue : s.engine.Served { s.engine with waiting } := s.engine.served_notes _ _ waiting _
  rw [Chronicle.outcome_start] at hs'
  obtain ⟨⟨result, s₁⟩, hattend, rfl⟩ := Attended.exists_of_map_eq_ok hs'
  have hrun : s.engine.Served s₁.engine := hqueue.trans (served_attend hattend)
  cases result with
  | ok outcome => exact hrun
  | error error => exact hrun.trans (s₁.engine.served_fail error none)

theorem served_drainCalls {calls : List DeferredCall}
    (hs' : (Chronicle.drainCalls I s calls).outcome = .ok s') : s.engine.Served s'.engine := by
  induction calls generalizing s with
  | nil =>
    cases hs'
    exact .refl _
  | cons call calls ih =>
    unfold Chronicle.drainCalls at hs'
    split at hs'
    · obtain ⟨s₁, hs₁, hrest⟩ := Chronicle.outcome_bind_eq_ok.mp hs'
      exact (served_start hs₁).trans (ih hrest)
    · cases hs'
      exact .refl _

theorem served_reenter (hs' : (Chronicle.reenter I s).outcome = .ok s') :
    (s.engine.transition .resuming {}).Served s'.engine := by
  unfold Chronicle.reenter at hs'
  dsimp only at hs'
  split at hs'
  · cases hs'
    exact Engine.served_running _
  · next entry e hpop =>
    obtain ⟨⟨result, s₁⟩, hs₁, hs'⟩ := Chronicle.outcome_bind_eq_ok.mp hs'
    cases hs'
    have hrun : e.Served s₁.engine := served_attend (s := s.setEngine e) hs₁
    exact ((Engine.served_popOutermost hpop).trans hrun).trans (Engine.served_afterResuming _ _ _)

/-- **A program that goes on is served** from the moment on at which it counts as going on. -/
theorem served_resumeThread (hs' : s.resumeThread I = .ok s') :
    (s.engine.transition .resuming {}).Served s'.engine := by
  rw [← Chronicle.outcome_resumeThread] at hs'
  obtain ⟨s₁, hs₁, hrest⟩ := Chronicle.outcome_bind_eq_ok.mp hs'
  exact (served_reenter hs₁).trans (served_drainCalls hrest)

/-- A call from the host is served, or waits. -/
theorem served_submit {call : DeferredCall} (hs' : s.perform I (.submit call) = .ok s') :
    s.engine.Served s'.engine := by
  rw [← Chronicle.outcome_perform] at hs'
  obtain ⟨-, -, hs'⟩ := Chronicle.outcome_bind_eq_ok.mp hs'
  split at hs'
  · exact served_start hs'
  · cases hs'
    exact s.engine.served_notes _ _ _ _

/-! ### In the middle of a poll -/

/-- **The first tasks of a poll**, as many as are asked for and due. -/
def runDue (I : Interpreter σ) (now : Time) : Nat → Session σ → Except Stop (Session σ)
  | 0, s => .ok s
  | count + 1, s =>
    match s.engine.timers.popDue now with
    | none => .ok s
    | some (task, timers) =>
      ((s.setEngine { s.engine with timers }).runTask I task).bind (runDue I now count)

/-- In the middle of a poll the engine has grown out of the engine before. -/
theorem evolves_runDue {now : Time} {count : Nat} (hnow : s.engine.clock = now)
    (hs' : s.runDue I now count = .ok s') : Evolves ticks s.engine s'.engine := by
  -- over the tasks that are due, with the clock standing still
  induction count generalizing s with
  | zero =>
    cases hs'
    exact .refl _
  | succ count ih =>
    unfold runDue at hs'
    split at hs'
    · cases hs'
      exact .refl _
    · next task timers hpop =>
      rw [← hnow] at hpop
      cases htask : (s.setEngine { s.engine with timers }).runTask I task with
      | error reason =>
        rw [htask] at hs'
        cases hs'
      | ok s₁ =>
        rw [htask] at hs'
        rw [← Chronicle.outcome_runTask] at htask
        have hclock := ((Chronicle.follows_runTask I s hpop).evolves htask).clock
        exact .trans ((Chronicle.follows_runTask I s hpop).evolves htask)
          (ih (hclock.trans hnow) hs')

end Session

end BytecodeDebugger
