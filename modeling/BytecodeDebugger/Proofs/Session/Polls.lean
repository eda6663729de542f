import BytecodeDebugger.Proofs.Engine.Matching
import BytecodeDebugger.Proofs.Session.AutoSteps
import Mathlib.Data.List.Forall2

/-!
# Polls are not noticed

As long as steps are not automatic, a poll only announces a stop. Whether this happened or not makes
no difference to any other operation: two sessions that are alike (`Session.Alike`) give the same
answers, run the same code and are alike again, and either both operations end or neither. Hence two
ways of driving a session that differ by the polls, and by the times to which the clock is set, come
to the same.

Main statement: `Session.polls_unnoticed`, for every interpreter.
-/

namespace BytecodeDebugger

open Engine (Twin)

/-! ### Code that runs -/

/-- **Twins answer an interpreter in the same way**, so that it does the same. -/
theorem Attended.run_twin {α : Type} (t : Attended α) {e e' : Engine} (h : e.Twin e') :
    Outcomes (fun p p' => p'.1 = p.1 ∧ p.2.Twin p'.2) (t.run Engine.reply e)
      (t.run Engine.reply e') := by
  induction t generalizing e e' with
  | done a => exact .done ⟨rfl, h⟩
  | stop reason => exact .stop reason
  | ask call next ih =>
    obtain ⟨hanswer, htwin⟩ := h.reply call
    unfold Attended.run
    rw [hanswer]
    exact ih _ htwin

namespace Session

variable {σ : Type} {I : Interpreter σ} {s s' : Session σ}

/-- Sessions with twin engines, over the same state of the interpreter. -/
structure Twin (s s' : Session σ) : Prop where
  engine : s.engine.Twin s'.engine
  vm : s'.vm = s.vm

/-- **Sessions that differ by polls.** -/
structure Alike (s s' : Session σ) : Prop where
  engine : s.engine.Alike s'.engine
  vm : s'.vm = s.vm

theorem Twin.alike (h : s.Twin s') : s.Alike s' := ⟨Engine.Twin.alike h.engine, h.vm⟩

theorem Twin.attend (h : s.Twin s') {α : Type} (entry : σ → Attended (α × σ)) :
    Outcomes (fun p p' => p'.1 = p.1 ∧ p.2.Twin p'.2) (s.attend entry) (s'.attend entry) := by
  rw [attend_eq, attend_eq, h.vm]
  refine ((entry s.vm).run_twin h.engine).map ?_
  rintro ⟨⟨a, vm⟩, e⟩ ⟨⟨a', vm'⟩, e'⟩ ⟨heq, htwin⟩
  obtain ⟨rfl, rfl⟩ := Prod.mk.inj heq
  exact ⟨rfl, htwin, rfl⟩

/-- Twins make their waiting calls alike. -/
theorem Twin.drainCalls (h : s.Twin s') (calls : List DeferredCall) :
    Outcomes Session.Twin (s.drainCalls I calls) (s'.drainCalls I calls) := by
  -- over the queue: twins answer alike, so that both make a call or neither does
  induction calls generalizing s s' with
  | nil => exact .done h
  | cons call calls ih =>
    unfold Session.drainCalls
    rw [h.engine.status]
    split
    · -- the call leaves both queues before it is made
      have hqueue : (s.setEngine { s.engine with waiting := calls }).Twin
          (s'.setEngine { s'.engine with waiting := calls }) :=
        ⟨h.engine.waits calls, h.vm⟩
      refine (hqueue.attend (I.call call.function call.args)).bind ?_
      rintro ⟨result, s₁⟩ ⟨result', s₁'⟩ ⟨heq, htwin⟩
      obtain rfl : result' = result := heq
      cases result' with
      | ok outcome => exact ih htwin
      | error error => exact ih ⟨(htwin.engine.fail error none).2, htwin.vm⟩
    · exact .done h

theorem Twin.drain (h : s.Twin s') : Outcomes Session.Twin (s.drain I) (s'.drain I) := by
  unfold Session.drain
  rw [h.engine.waiting]
  exact h.drainCalls _

/-- **Sessions that are alike go on in the same way.** -/
theorem Alike.resumeThread (h : s.Alike s') :
    Outcomes Session.Twin (s.resumeThread I) (s'.resumeThread I) := by
  have hgo := h.engine.resuming
  unfold Session.resumeThread
  dsimp only
  -- from here on both resume; only what is parked decides how, and it is the same
  generalize s.engine.transition .resuming {} = e at hgo ⊢
  generalize s'.engine.transition .resuming {} = e' at hgo ⊢
  rw [Engine.popOutermost_eq, Engine.popOutermost_eq, hgo.parked]
  cases e.parked with
  | nil =>
    have hrunning : (s.setEngine (e.transition .running {})).Twin
        (s'.setEngine (e'.transition .running {})) := ⟨hgo.transition .running {}, h.vm⟩
    exact hrunning.drain
  | cons entry inner =>
    have hentered : (s.setEngine (e.handOver inner)).Twin (s'.setEngine (e'.handOver inner)) :=
      ⟨hgo.handOver inner, h.vm⟩
    dsimp only
    -- the origin of an error is looked up in the same machine
    rw [h.vm]
    refine (hentered.attend (I.reenter entry)).bind ?_
    rintro ⟨result, s₁⟩ ⟨result', s₁'⟩ ⟨heq, htwin⟩
    obtain rfl : result' = result := heq
    exact Twin.drain ⟨htwin.engine.afterResuming _ result', htwin.vm⟩

/-- A call is made by both, or waits in both. -/
theorem Alike.execute (h : s.Alike s') (function : Value) (args : List Value) :
    Outcomes (fun p p' => p'.1 = p.1 ∧ p.2.Alike p'.2) (s.execute I function args)
      (s'.execute I function args) := by
  unfold Session.execute
  by_cases hrunning : s.engine.status = .running
  · have hrunning' := h.engine.running_iff.mpr hrunning
    rw [if_pos hrunning, if_pos hrunning']
    -- alike sessions that run are twins, which is what a run preserves
    have htwin : s.Twin s' := ⟨h.engine.twin (hrunning'.trans hrunning.symm), h.vm⟩
    refine (htwin.attend (I.call function args)).bind ?_
    rintro ⟨result, s₁⟩ ⟨result', s₁'⟩ ⟨heq, htwin⟩
    obtain rfl : result' = result := heq
    cases result' with
    | ok outcome => cases outcome <;> exact .done ⟨rfl, htwin.alike⟩
    | error error =>
      obtain ⟨herror, hfailed⟩ := htwin.engine.fail error none
      refine .done ⟨congrArg Execution.failed herror, ?_⟩
      exact ⟨Engine.Twin.alike hfailed, htwin.vm⟩
  · -- a call that has to wait joins both queues
    rw [if_neg hrunning, if_neg fun hr => hrunning (h.engine.running_iff.mp hr)]
    exact .done ⟨rfl, h.engine.queues _, h.vm⟩

/-! ### Operations -/

theorem Alike.command (h : s.Alike s') {f f' : Stepping → Stepping} (hf : f' = f) :
    (s.command f).Alike (s'.command f') := by
  subst hf
  refine ⟨?_, h.vm⟩
  unfold Session.command setEngine
  dsimp only
  have hstepping : s'.engine.beginCommand.stepping = s.engine.beginCommand.stepping :=
    h.engine.stepping
  rw [hstepping]
  exact h.engine.command _

/-- A command goes on in the same way. -/
theorem Alike.goOn (h : s.Alike s') {f f' : Stepping → Stepping} (hf : f' = f) :
    Outcomes Session.Alike ((s.command f).resumeThread I) ((s'.command f').resumeThread I) :=
  (h.command hf).resumeThread.mono fun _ _ => Twin.alike

theorem Alike.resume (h : s.Alike s') : Outcomes Session.Alike (s.resume I) (s'.resume I) :=
  (h.goOn rfl).bind fun _ _ halike => .done ⟨halike.engine.emit .resumed, halike.vm⟩

theorem Alike.stepOut (h : s.Alike s') : Outcomes Session.Alike (s.stepOut I) (s'.stepOut I) := by
  have hcaller : s'.engine.enclosingCall? = s.engine.enclosingCall? := by
    unfold Engine.enclosingCall? Engine.resumeStack
    rw [h.engine.parked]
  unfold Session.stepOut
  rw [hcaller]
  split
  · exact h.goOn rfl
  · exact h.resume

theorem Alike.autoStep (h : s.Alike s') :
    Outcomes (fun p p' => p'.1 = p.1 ∧ p.2.Alike p'.2) (s.autoStep I) (s'.autoStep I) := by
  have htoggled : (s.command Stepping.toggleAuto).Alike (s'.command Stepping.toggleAuto) :=
    h.command rfl
  unfold Session.autoStep
  dsimp only
  rw [htoggled.engine.stepping]
  split
  · exact (htoggled.goOn rfl).bind fun _ _ halike => .done ⟨rfl, halike⟩
  · exact .done ⟨rfl, htoggled⟩

end Session

/-! ### Answers -/

/-- The operation only lets time pass, or does what is due. -/
def Operation.waits : Operation → Bool
  | .poll _ => true
  | .setClock _ => true
  | _ => false

/-- The operation with a larger budget, if it is a poll. -/
def Operation.withBudget (budget : Nat) : Operation → Operation
  | .poll least => .poll (max least budget)
  | op => op

/-- **The answer to an operation.** -/
inductive Answer where
  | none
  | executed (execution : Execution)
  | toggled (result : Except InvalidLine Bool)
  | flag (isSet : Bool)
  | saves (parts : List Save)
  | reported (record : Option ErrorRecord)

namespace Session

variable {σ : Type} {I : Interpreter σ} {s s' : Session σ}

/-- **Performs an operation**, and answers. -/
def respond (I : Interpreter σ) (s : Session σ) : Operation → Except Stop (Answer × Session σ)
  | .submit call => (s.execute I call.function call.args).map fun p => (.executed p.1, p.2)
  | .autoStep => (s.autoStep I).map fun p => (.flag p.1, p.2)
  | .toggleBreakpoint file line =>
    (s.engine.toggleBreakpoint file line).map fun toggled =>
      (.toggled (toggled.map Prod.fst), s.setEngine (s.engine.toggledBreakpoint file line))
  | .toggleStops => .ok (.flag s.engine.toggleStops.1, s.setEngine s.engine.toggleStops.2)
  | .fileLoaded jsonUrl path? fetch =>
    .ok (.flag (s.engine.fileLoaded jsonUrl path? fetch).1,
      s.setEngine (s.engine.fileLoaded jsonUrl path? fetch).2)
  | .takeUnsaved => .ok (.saves s.engine.takeUnsaved.1, s.setEngine s.engine.takeUnsaved.2)
  | .reportUncaught error =>
    .ok (.reported (s.engine.reportUncaught error).1, s.setEngine (s.engine.reportUncaught error).2)
  | .reportText message =>
    .ok (.reported (s.engine.reportText message).1, s.setEngine (s.engine.reportText message).2)
  | op => (s.perform I op).map fun s => (.none, s)

/-- Apart from the answer it is the same operation. -/
theorem map_respond (I : Interpreter σ) (s : Session σ) (op : Operation) :
    (s.respond I op).map Prod.snd = s.perform I op := by
  -- an answer is read off the same result that the operation goes on with
  have hthrough : ∀ {α : Type} (x : Except Stop α) (f : α → Answer × Session σ),
      (x.map f).map Prod.snd = x.map fun a => (f a).2 := by
    intro α x f
    cases x <;> rfl
  cases op with
  | submit call => exact hthrough _ _
  | autoStep => exact hthrough _ _
  | toggleBreakpoint file line => exact hthrough _ _
  | pause | setClock | toggleStops | fileLoaded | takeUnsaved | reportUncaught | reportText => rfl
  | stepIn | stepOver | stepOut | resume | poll =>
    refine (hthrough _ _).trans ?_
    cases s.perform I _ <;> rfl

/-- **Sessions that are alike respond in the same way** to any operation but a wait. -/
theorem Alike.respond (h : s.Alike s') {op : Operation} (hop : op.waits = false) :
    Outcomes (fun p p' => p'.1 = p.1 ∧ p.2.Alike p'.2) (s.respond I op) (s'.respond I op) := by
  -- what runs nothing, and what lets the program go on
  have hquiet : ∀ {a a' : Answer} {e e' : Engine}, a' = a → e.Alike e' →
      Outcomes (fun p p' => p'.1 = p.1 ∧ p.2.Alike p'.2) (.ok (a, s.setEngine e))
        (.ok (a', s'.setEngine e')) := fun heq halike => .done ⟨heq, halike, h.vm⟩
  have hgoes : ∀ {x x' : Except Stop (Session σ)}, Outcomes Session.Alike x x' →
      Outcomes (fun p p' => p'.1 = p.1 ∧ p.2.Alike p'.2) (x.map fun s => (Answer.none, s))
        (x'.map fun s => (Answer.none, s)) := fun hrun => hrun.map fun _ _ halike => ⟨rfl, halike⟩
  cases op with
  | poll | setClock => cases hop
  | submit call => exact (h.execute _ _).map fun _ _ hdone => ⟨congrArg Answer.executed hdone.1, hdone.2⟩
  | autoStep => exact h.autoStep.map fun _ _ hdone => ⟨congrArg Answer.flag hdone.1, hdone.2⟩
  | stepIn => exact hgoes (h.goOn rfl)
  | stepOver =>
    refine hgoes (h.goOn ?_)
    unfold Engine.innermost? Engine.resumeStack
    rw [h.engine.parked]
  | stepOut => exact hgoes h.stepOut
  | resume => exact hgoes h.resume
  | pause => exact hquiet rfl h.engine.pause
  | toggleBreakpoint file line =>
    obtain ⟨hanswer, halike⟩ := h.engine.toggleBreakpoint file line
    change Outcomes _ ((s.engine.toggleBreakpoint file line).map _)
      ((s'.engine.toggleBreakpoint file line).map _)
    -- both toggles come to the same, a refusal, a flag or no end at all
    cases htoggle : s.engine.toggleBreakpoint file line with
    | error reason =>
      rw [htoggle] at hanswer
      rw [Attended.eq_error_of_map hanswer]
      exact .stop reason
    | ok toggled =>
      rw [htoggle] at hanswer
      obtain ⟨toggled', htoggled', hsame⟩ := Attended.exists_of_map_eq_ok hanswer
      rw [htoggled']
      exact hquiet (congrArg Answer.toggled hsame) halike
  | toggleStops =>
    obtain ⟨hanswer, halike⟩ := h.engine.toggleStops
    exact hquiet (congrArg _ hanswer) halike
  | fileLoaded jsonUrl path? fetch =>
    obtain ⟨hanswer, halike⟩ := h.engine.fileLoaded jsonUrl path? fetch
    exact hquiet (congrArg _ hanswer) halike
  | takeUnsaved =>
    obtain ⟨hanswer, halike⟩ := h.engine.takeUnsaved
    exact hquiet (congrArg _ hanswer) halike
  | reportUncaught error =>
    obtain ⟨hanswer, halike⟩ := h.engine.reportUncaught error
    exact hquiet (congrArg _ hanswer) halike
  | reportText message =>
    obtain ⟨hanswer, halike⟩ := h.engine.reportText message
    exact hquiet (congrArg _ hanswer) halike

theorem Alike.perform (h : s.Alike s') {op : Operation} (hop : op.waits = false) :
    Outcomes Session.Alike (s.perform I op) (s'.perform I op) := by
  rw [← map_respond, ← map_respond]
  exact (h.respond hop).map fun _ _ hdone => hdone.2

/-! ### Polls -/

theorem Alike.refl (s : Session σ) : s.Alike s := ⟨.refl _, rfl⟩

theorem Alike.symm (h : s.Alike s') : s'.Alike s := ⟨Engine.Alike.symm h.engine, h.vm.symm⟩

theorem Alike.trans {s'' : Session σ} (h : s.Alike s') (h' : s'.Alike s'') : s.Alike s'' :=
  ⟨Engine.Alike.trans h.engine h'.engine, h'.vm.trans h.vm⟩

/-- Steps are not automatic. -/
def Manual (s : Session σ) : Prop := s.engine.stepping.auto = false

theorem Manual.of_alike (h : s.Manual) (halike : s.Alike s') : s'.Manual := by
  unfold Manual
  rw [halike.engine.stepping]
  exact h

/-- While steps are not automatic, doing a task leaves a session alike, and puts off no other. -/
theorem Manual.runTask (h : s.Manual) (task : TimedTask) :
    ∃ s₁, s.runTask I task = .ok s₁ ∧ s.Alike s₁ ∧ s₁.engine.timers = s.engine.timers := by
  cases task with
  | enterSuspended epoch location =>
    unfold Session.runTask
    dsimp only
    split
    · next hnow =>
      refine ⟨_, rfl, ⟨Engine.alike_land hnow.2 _, rfl⟩, ?_⟩
      -- without automatic stepping a notice puts off nothing
      have htimers : ∀ payload, (s.engine.land payload).timers = s.engine.timers := by
        intro payload
        rw [Engine.land_of_suspending hnow.2]
        exact if_neg (Bool.eq_false_iff.mp h)
      exact htimers _
    · exact ⟨s, rfl, .refl s, rfl⟩
  | autoStep generation =>
    refine ⟨s, if_neg fun hnow => ?_, .refl s, rfl⟩
    cases hnow.1.symm.trans h

/-- A task that is taken off the list. -/
theorem alike_timers (s : Session σ) (timers : Timers) :
    s.Alike (s.setEngine { s.engine with timers }) :=
  ⟨⟨_, _, _, _, _, _, rfl, rfl, rfl⟩, rfl⟩

/-- **A poll leaves a session alike.** -/
theorem Manual.pollAt (h : s.Manual) {now : Time} {budget : Nat}
    (hs' : s.pollAt I now budget = .ok s') : s.Alike s' := by
  -- over the tasks: each leaves the session like it was, and manual
  induction budget generalizing s with
  | zero => cases hs'
  | succ budget ih =>
    unfold Session.pollAt at hs'
    split at hs'
    · cases hs'
      exact .refl _
    · next task timers hpop =>
      have hpopped := s.alike_timers timers
      obtain ⟨s₁, htask, halike, -⟩ := (h.of_alike hpopped).runTask (I := I) task
      rw [htask] at hs'
      have hdone := hpopped.trans halike
      exact hdone.trans (ih (h.of_alike hdone) hs')

/-- **A poll with a budget for each task ends.** -/
theorem Manual.pollAt_ends (h : s.Manual) {now : Time} {budget : Nat}
    (henough : s.engine.timers.length < budget) : ∃ s', s.pollAt I now budget = .ok s' := by
  -- every task takes one timer off and adds none, so that the list runs out
  induction budget generalizing s with
  | zero => cases henough
  | succ budget ih =>
    unfold Session.pollAt
    cases hpop : s.engine.timers.popDue now with
    | none => exact ⟨s, rfl⟩
    | some p =>
      obtain ⟨task, timers⟩ := p
      obtain ⟨due, hmem, -, htimers⟩ := Timers.popDue_eq_some hpop
      have hpopped := s.alike_timers timers
      obtain ⟨s₁, htask, halike, hrest⟩ := (h.of_alike hpopped).runTask (I := I) task
      dsimp only
      rw [htask]
      refine ih (h.of_alike (hpopped.trans halike)) ?_
      have hlength := List.length_erase_add_one hmem
      rw [hrest]
      change timers.length < budget
      rw [htimers]
      omega

/-- A larger budget makes no difference to a poll that ends. -/
theorem pollAt_mono {now : Time} {budget budget' : Nat} (hle : budget ≤ budget')
    (hs' : s.pollAt I now budget = .ok s') : s.pollAt I now budget' = .ok s' := by
  -- over the smaller budget, which is enough wherever the run of it ends
  induction budget generalizing s budget' with
  | zero => cases hs'
  | succ budget ih =>
    cases budget' with
    | zero => cases hle
    | succ budget' =>
      unfold Session.pollAt at hs' ⊢
      cases hpop : s.engine.timers.popDue now with
      | none =>
        rw [hpop] at hs'
        exact hs'
      | some p =>
        obtain ⟨task, timers⟩ := p
        rw [hpop] at hs'
        dsimp only at hs' ⊢
        cases htask : (s.setEngine { s.engine with timers }).runTask I task with
        | error reason =>
          rw [htask] at hs'
          cases hs'
        | ok s₁ =>
          rw [htask] at hs'
          exact ih (Nat.le_of_succ_le_succ hle) hs'

/-! ### Steps stay manual -/

/-- A command that does not make steps automatic goes on with manual steps. -/
theorem manual_goOn {f : Stepping → Stepping} (hf : (f s.engine.stepping).auto = false)
    (hs' : (s.command f).resumeThread I = .ok s') : s'.Manual := by
  have hauto := (served_resumeThread hs').spares.auto
  obtain ⟨_, _, _, _, htransition⟩ := (s.command f).engine.transition_eq .resuming {}
  rw [htransition] at hauto
  exact hauto.trans hf

theorem manual_resume (hs' : s.resume I = .ok s') : s'.Manual := by
  unfold Session.resume at hs'
  cases hgo : (s.command Stepping.resume).resumeThread I with
  | error reason =>
    rw [hgo] at hs'
    cases hs'
  | ok s₁ =>
    rw [hgo] at hs'
    cases hs'
    have hgone : s₁.Manual := manual_goOn rfl hgo
    exact hgone

/-- **Steps stay manual** until automatic steps are switched on. -/
theorem Manual.perform (h : s.Manual) {op : Operation} (hop : op ≠ .autoStep)
    (hs' : s.perform I op = .ok s') : s'.Manual := by
  have hquiet : op.directs = false → op ≠ .pause → (∀ budget, op ≠ .poll budget) → s'.Manual :=
    fun hdirects hpause hpoll =>
      (spares_perform hs' hdirects (fun heq => absurd heq hpause) hpoll).auto.trans h
  -- only the commands touch the switch, and each but `autoStep` leaves or turns it off
  cases op with
  | stepIn =>
    have hkept : (Stepping.stepIn s.engine.stepping).auto = false := h
    exact manual_goOn hkept hs'
  | stepOver => exact manual_goOn rfl hs'
  | stepOut =>
    unfold Session.perform Session.stepOut at hs'
    dsimp only at hs'
    split at hs'
    · exact manual_goOn rfl hs'
    · exact manual_resume hs'
  | resume => exact manual_resume hs'
  | autoStep => exact absurd rfl hop
  | poll budget => exact h.of_alike (h.pollAt hs')
  | pause =>
    cases hs'
    unfold Manual setEngine Engine.pause
    split <;> exact h
  | submit | toggleBreakpoint | toggleStops | setClock | fileLoaded | takeUnsaved | reportUncaught
  | reportText => exact hquiet rfl (fun heq => by cases heq) fun _ heq => by cases heq

/-! ### Ways of driving a session -/

/-- **What a session answers**, and how it stands after every operation but the waits. -/
def transcript (I : Interpreter σ) (s : Session σ) : List Operation → List (Answer × Session σ)
  | [] => []
  | op :: ops =>
    match s.respond I op with
    | .ok (a, s') => (if op.waits then [] else [(a, s')]) ++ s'.transcript I ops
    | .error _ => []

/-- Waits leave a session alike. -/
theorem Manual.waits (h : s.Manual) {op : Operation} (hop : op.waits = true)
    (hs' : s.perform I op = .ok s') : s.Alike s' := by
  cases op with
  | poll budget => exact h.pollAt hs'
  | setClock now =>
    cases hs'
    exact ⟨⟨_, _, _, _, _, _, rfl, rfl, rfl⟩, rfl⟩
  | _ => cases hop

/-- **Without its waits** a session does the same. -/
theorem Manual.without_waits (h : s.Manual) {ops : List Operation} (hops : .autoStep ∉ ops)
    (hs' : s.performAll I ops = .ok s') {t : Session σ} (halike : s.Alike t) :
    ∃ t', t.performAll I (ops.filter fun op => !op.waits) = .ok t' ∧ s'.Alike t' ∧
      List.Forall₂ (fun p p' => p'.1 = p.1 ∧ p.2.Alike p'.2) (s.transcript I ops)
        (t.transcript I (ops.filter fun op => !op.waits)) := by
  -- the two sessions are alike before each operation, whether it is left out or not
  induction ops generalizing s t with
  | nil =>
    cases hs'
    exact ⟨t, rfl, halike, .nil⟩
  | cons op ops ih =>
    obtain ⟨hne, hops⟩ := not_or.mp (List.mem_cons.not.mp hops)
    unfold performAll at hs'
    cases hop : s.perform I op with
    | error reason =>
      rw [hop] at hs'
      cases hs'
    | ok s₁ =>
      rw [hop] at hs'
      have hmanual := h.perform (Ne.symm hne) hop
      obtain ⟨⟨a, s₁'⟩, hresponds, hsnd⟩ :=
        Attended.exists_of_map_eq_ok ((s.map_respond I op).trans hop)
      obtain rfl : s₁' = s₁ := hsnd
      have hsession : s.transcript I (op :: ops) =
          (if op.waits then [] else [(a, s₁')]) ++ s₁'.transcript I ops := by
        rw [transcript, hresponds]
      rw [hsession]
      cases hwaits : op.waits with
      | true =>
        -- a wait is left out
        rw [List.filter_cons_of_neg (by simp [hwaits])]
        exact ih hmanual hops hs' ((h.waits hwaits hop).symm.trans halike)
      | false =>
        rw [List.filter_cons_of_pos (by simp [hwaits])]
        -- what is no wait is answered alike
        obtain ⟨⟨b, t₁⟩, hresponds', hanswer, halike₁⟩ := (halike.respond hwaits).of_ok hresponds
        obtain ⟨t', ht', halike', hrest⟩ := ih hmanual hops hs' halike₁
        have hop' : t.perform I op = .ok t₁ := by
          rw [← map_respond, hresponds']
          rfl
        refine ⟨t', ?_, halike', ?_⟩
        · rw [performAll, hop']
          exact ht'
        · rw [transcript, hresponds']
          dsimp only
          rw [hwaits]
          exact .cons ⟨hanswer, halike₁⟩ hrest

/-- A wait ends, if it is a poll for every budget that is large enough. -/
theorem Manual.wait_ends (h : s.Manual) {op : Operation} (hop : op.waits = true) :
    ∃ least s₁, s.Alike s₁ ∧
      ∀ budget ≥ least, s.perform I (op.withBudget budget) = .ok s₁ := by
  cases op with
  | poll budget =>
    obtain ⟨s₁, hs₁⟩ : ∃ s₁, s.pollAt I s.engine.clock (s.engine.timers.length + 1) = .ok s₁ :=
      h.pollAt_ends (Nat.lt_succ_self _)
    -- a budget of one more than the timers is enough, and so is every larger one
    refine ⟨s.engine.timers.length + 1, s₁, h.pollAt hs₁, fun m hm => ?_⟩
    exact pollAt_mono (Nat.le_trans hm (Nat.le_max_right budget m)) hs₁
  | setClock now =>
    exact ⟨0, s.setEngine (s.engine.setClock now), ⟨⟨_, _, _, _, _, _, rfl, rfl, rfl⟩, rfl⟩,
      fun _ _ => rfl⟩
  | _ => cases hop

/-- **With waits in between** a session ends if it ends without, as long as the polls have budget
enough. -/
theorem Manual.with_waits (h : s.Manual) {ops : List Operation} (hops : .autoStep ∉ ops)
    {t t' : Session σ} (halike : t.Alike s)
    (ht' : t.performAll I (ops.filter fun op => !op.waits) = .ok t') :
    ∃ least, ∀ budget ≥ least,
      ∃ s', s.performAll I (ops.map (Operation.withBudget budget)) = .ok s' := by
  -- over the operations; the budget has to be enough for each of them, so that the largest is taken
  induction ops generalizing s t with
  | nil => exact ⟨0, fun _ _ => ⟨s, rfl⟩⟩
  | cons op ops ih =>
    obtain ⟨hne, hops⟩ := not_or.mp (List.mem_cons.not.mp hops)
    cases hwaits : op.waits with
    | true =>
      rw [List.filter_cons_of_neg (by simp [hwaits])] at ht'
      obtain ⟨least, s₁, halike₁, hs₁⟩ := h.wait_ends (I := I) hwaits
      obtain ⟨least', hrest⟩ := ih (h.of_alike halike₁) hops (halike.trans halike₁) ht'
      refine ⟨max least least', fun budget hbudget => ?_⟩
      obtain ⟨s', hs'⟩ := hrest budget (Nat.le_trans (Nat.le_max_right _ _) hbudget)
      refine ⟨s', ?_⟩
      rw [List.map_cons, performAll, hs₁ budget (Nat.le_trans (Nat.le_max_left _ _) hbudget)]
      exact hs'
    | false =>
      rw [List.filter_cons_of_pos (by simp [hwaits]), performAll] at ht'
      cases hop : t.perform I op with
      | error reason =>
        rw [hop] at ht'
        cases ht'
      | ok t₁ =>
        rw [hop] at ht'
        obtain ⟨s₁, hs₁, halike₁⟩ := (halike.perform hwaits).of_ok hop
        obtain ⟨least, hrest⟩ := ih (h.perform (Ne.symm hne) hs₁) hops halike₁ ht'
        refine ⟨least, fun budget hbudget => ?_⟩
        obtain ⟨s', hs'⟩ := hrest budget hbudget
        refine ⟨s', ?_⟩
        -- an operation that does not wait has no budget to raise
        have hsame : op.withBudget budget = op := by
          cases op with
          | poll => cases hwaits
          | _ => rfl
        rw [List.map_cons, performAll, hsame, hs₁]
        exact hs'

/-- Transcripts that agree with a third one agree with each other. -/
theorem transcripts_agree {l l' l'' : List (Answer × Session σ)}
    (h : List.Forall₂ (fun p p' => p'.1 = p.1 ∧ p.2.Alike p'.2) l l'')
    (h' : List.Forall₂ (fun p p' => p'.1 = p.1 ∧ p.2.Alike p'.2) l' l'') :
    List.Forall₂ (fun p p' => p'.1 = p.1 ∧ p.2.Alike p'.2) l l' := by
  induction h generalizing l' with
  | nil =>
    cases h'
    exact .nil
  | cons hfirst _ ih =>
    cases h' with
    | cons hfirst' hrest' =>
      exact .cons ⟨hfirst'.1.symm.trans hfirst.1, hfirst.2.trans hfirst'.2.symm⟩ (ih hrest')

/-- **Polls make no difference to the program**, for every interpreter and two ways of driving a new
session that give the same commands and make the same calls, without automatic steps, but poll and set
the clock differently. All operations get the same answers, and after each of them the sessions are
alike: they differ at most by the tasks and times, the record of requests, the payload, the
announcements of stops, and by whether a stop was announced already. And one of the two comes to its
end if the other does, unless one of its polls has too small a budget. -/
theorem polls_unnoticed (I : Interpreter σ) (config : Config) (saved : SavedSession) (clock : Time)
    (vm : σ) (ops ops' : List Operation) (hops : .autoStep ∉ ops)
    (hsame : (ops.filter fun op => !op.waits) = ops'.filter fun op => !op.waits) (s : Session σ)
    (hs : performAll I ⟨.start config saved clock, vm⟩ ops = .ok s) :
    (∀ s', performAll I ⟨.start config saved clock, vm⟩ ops' = .ok s' →
      List.Forall₂ (fun p p' => p'.1 = p.1 ∧ p.2.Alike p'.2)
        (transcript I ⟨.start config saved clock, vm⟩ ops)
        (transcript I ⟨.start config saved clock, vm⟩ ops') ∧ s.Alike s') ∧
    ∃ least, ∀ budget ≥ least, ∃ s', performAll I ⟨.start config saved clock, vm⟩
      (ops'.map (Operation.withBudget budget)) = .ok s' := by
  have hmanual : Manual (⟨.start config saved clock, vm⟩ : Session σ) := rfl
  -- what steps automatically is no wait, so that it would stand in both lists
  have hops' : .autoStep ∉ ops' := by
    intro hmem
    have hcommon : Operation.autoStep ∈ ops'.filter fun op => !op.waits :=
      List.mem_filter.mpr ⟨hmem, rfl⟩
    rw [← hsame] at hcommon
    exact hops (List.mem_of_mem_filter hcommon)
  -- both runs are compared with the run that has no waits at all
  obtain ⟨t, ht, halike, htold⟩ := hmanual.without_waits hops hs (.refl _)
  rw [hsame] at ht htold
  refine ⟨fun s' hs' => ?_, hmanual.with_waits hops' (.refl _) ht⟩
  obtain ⟨t', ht', halike', htold'⟩ := hmanual.without_waits hops' hs' (.refl _)
  cases ht.symm.trans ht'
  exact ⟨transcripts_agree htold htold', halike.trans halike'.symm⟩

/-- A step is made from a stop that was announced, or before it is. -/
theorem step_before_notice :
    ∃ s s', performAll Player.interpreter ⟨.start {} {} 0, twoLines⟩
        [.pause, .submit ⟨.nil, []⟩, .poll 2, .stepIn, .setClock 1, .poll 2] = .ok s ∧
      performAll Player.interpreter ⟨.start {} {} 0, twoLines⟩
        [.pause, .submit ⟨.nil, []⟩, .stepIn] = .ok s' ∧
      s.engine.status = .suspended ∧ s'.engine.status = .suspending ∧ s.Alike s' := by
  have hpolled : (performAll Player.interpreter ⟨.start {} {} 0, twoLines⟩
      [.pause, .submit ⟨.nil, []⟩, .poll 2, .stepIn, .setClock 1, .poll 2]).map
        (fun s => s.engine.status) = .ok .suspended := by
    decide +kernel
  have hunpolled : (performAll Player.interpreter ⟨.start {} {} 0, twoLines⟩
      [.pause, .submit ⟨.nil, []⟩, .stepIn]).map (fun s => s.engine.status) =
        .ok .suspending := by
    decide +kernel
  obtain ⟨s, hs, hstatus⟩ := Attended.exists_of_map_eq_ok hpolled
  obtain ⟨s', hs', hstatus'⟩ := Attended.exists_of_map_eq_ok hunpolled
  obtain ⟨halike, -⟩ := polls_unnoticed Player.interpreter {} {} 0 twoLines
    [.pause, .submit ⟨.nil, []⟩, .poll 2, .stepIn, .setClock 1, .poll 2]
    [.pause, .submit ⟨.nil, []⟩, .stepIn] (by simp) rfl s hs
  exact ⟨s, s', hs, hs', hstatus, hstatus', (halike s' hs').2⟩

end Session

end BytecodeDebugger
