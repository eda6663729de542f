import BytecodeDebugger.Proofs.Engine.Correlation
import BytecodeDebugger.Proofs.Machine.Failing
import BytecodeDebugger.Proofs.Session.Evolution
import BytecodeDebugger.Proofs.Session.Rest

/-!
# Ways into the interpreter

An operation enters the interpreter by calls and by going on with what is parked, some operations
often and others never. `Session.Enters` says which session enters by which way, in the order in
which the operation proceeds; every question that the interpreter asks is asked in one of these
entrances (`Session.Enters.of_consulted`), so that no run is missed.

Over the machine every entrance is in one of two situations (`Entrance.Ready`), and the moments of its
run (`Entrance.Reaches`) are those of a run whose frames are in order.

Main statements:

* `Session.Prepares.enters` — what holds in every entrance of an operation;
* `Session.Undertakes.ready` — every entrance of whatever is done to a new session is ready;
* `Entrance.Ready.reaches` — at each moment of its run the frames are in order, and it ends as the
  rest of the run does.
-/

namespace BytecodeDebugger

/-- **A way into the interpreter.** -/
inductive Way where
  | call (call : DeferredCall)
  | again (entry : Resumable)

/-- Enters the interpreter. -/
def Way.enter {σ : Type} (I : Interpreter σ) : Way → σ → Attended (RunResult × σ)
  | .call c => I.call c.function c.args
  | .again entry => I.reenter entry

/-- **An entrance**: a session that enters its interpreter. -/
structure Entrance (σ : Type) where
  session : Session σ
  way : Way

namespace Entrance

variable {σ : Type}

/-- How the run ends. -/
def outcome (I : Interpreter σ) (x : Entrance σ) : Except Stop (RunResult × Session σ) :=
  x.session.attend (x.way.enter I)

/-- What is asked in the run. -/
def questions (I : Interpreter σ) (x : Entrance σ) : List (Engine × HookCall) :=
  (x.way.enter I x.session.vm).consultations Engine.reply x.session.engine

end Entrance

/-! ### The entrances of operations -/

namespace Session

variable {σ : Type} {I : Interpreter σ} {s s' : Session σ} {x : Entrance σ}

/-- **The entrances of waiting calls**, which are made as long as the program runs. -/
inductive Drains (I : Interpreter σ) : Session σ → List DeferredCall → Entrance σ → Prop where
  | next {s : Session σ} {call : DeferredCall} {calls : List DeferredCall}
    (running : s.engine.status = .running) :
    Drains I s (call :: calls) ⟨s.setEngine { s.engine with waiting := calls }, .call call⟩
  | later {s s' : Session σ} {call : DeferredCall} {calls : List DeferredCall} {x : Entrance σ}
    (running : s.engine.status = .running)
    (made : (Chronicle.start I s call calls).outcome = .ok s') (rest : Drains I s' calls x) :
    Drains I s (call :: calls) x

/-- **The entrances of a program that goes on**: into what is parked, and then by the calls that
wait. -/
inductive Resumes (I : Interpreter σ) (s : Session σ) : Entrance σ → Prop where
  | again {entry : Resumable} {e : Engine}
    (popped : (s.engine.transition .resuming {}).popOutermost = some (entry, e)) :
    Resumes I s ⟨s.setEngine e, .again entry⟩
  | drains {s' : Session σ} {x : Entrance σ} (reentered : (Chronicle.reenter I s).outcome = .ok s')
    (rest : Drains I s' s'.engine.waiting x) : Resumes I s x

/-- The session with the command given, if the operation is one that lets the program go on. -/
def commanded? (s : Session σ) : Operation → Option (Session σ)
  | .stepIn => some (s.command Stepping.stepIn)
  | .stepOver => some (s.command fun stepping => stepping.stepOver s.engine.innermost?)
  | .stepOut =>
    match s.engine.enclosingCall? with
    | some caller => some (s.command fun stepping => stepping.stepOut caller)
    | none => some (s.command Stepping.resume)
  | .resume => some (s.command Stepping.resume)
  | .autoStep =>
    let s := s.command Stepping.toggleAuto
    if s.engine.stepping.auto then some (s.command Stepping.stepIn) else none
  | _ => none

/-- **The entrances of a poll**: automatic steps are made. -/
inductive Polls (I : Interpreter σ) (now : Time) : Nat → Session σ → Entrance σ → Prop where
  | steps {s : Session σ} {budget : Nat} {generation : Nat} {timers : Timers} {x : Entrance σ}
    (due : s.engine.timers.popDue now = some (.autoStep generation, timers))
    (valid : s.engine.stepping.auto = true ∧ generation = s.engine.generation ∧
      s.engine.status = .suspended)
    (resumes : ((s.setEngine { s.engine with timers }).command Stepping.stepIn).Resumes I x) :
    Polls I now (budget + 1) s x
  | later {s s' : Session σ} {budget : Nat} {task : TimedTask} {timers : Timers} {x : Entrance σ}
    (due : s.engine.timers.popDue now = some (task, timers))
    (ran : (s.setEngine { s.engine with timers }).runTask I task = .ok s')
    (rest : Polls I now budget s' x) : Polls I now (budget + 1) s x

/-- **The entrances of an operation.** -/
inductive Enters (I : Interpreter σ) (s : Session σ) : Operation → Entrance σ → Prop where
  | submit {call : DeferredCall} (running : s.engine.status = .running) :
    Enters I s (.submit call) ⟨s, .call call⟩
  | goesOn {op : Operation} {s' : Session σ} {x : Entrance σ} (commanded : s.commanded? op = some s')
    (resumes : s'.Resumes I x) : Enters I s op x
  | poll {budget : Nat} {x : Entrance σ} (polls : Polls I s.engine.clock budget s x) :
    Enters I s (.poll budget) x

/-! ### No run is missed -/

theorem mem_happenings_bind {α β : Type} {c : Chronicle α} {f : α → Chronicle β} {x : Happening}
    (h : x ∈ (c >>= f).happenings) :
    x ∈ c.happenings ∨ ∃ a, c.outcome = .ok a ∧ x ∈ (f a).happenings := by
  change x ∈ (c.bind f).happenings at h
  unfold Chronicle.bind at h
  split at h
  · next a ha =>
    rcases List.mem_append.mp h with h | h
    · exact .inl h
    · exact .inr ⟨a, ha, h⟩
  · exact .inl h

section Consulted

variable {e : Engine} {question : HookCall}

theorem asked_of_attend {s : Session σ} (way : Way)
    (h : .consulted e question ∈ (Chronicle.attend s (way.enter I)).happenings) :
    (e, question) ∈ (Entrance.mk s way).questions I := by
  obtain ⟨q, hq, heq⟩ := List.mem_map.mp h
  cases heq
  exact hq

theorem asked_of_start {call : DeferredCall} {waiting : List DeferredCall}
    (h : .consulted e question ∈ (Chronicle.start I s call waiting).happenings) :
    (e, question) ∈
      (Entrance.mk (s.setEngine { s.engine with waiting }) (.call call)).questions I := by
  rw [Chronicle.happenings_start] at h
  rcases List.mem_cons.mp h with h | h
  · cases h
  · exact asked_of_attend (.call call) h

theorem Drains.of_consulted {calls : List DeferredCall}
    (h : .consulted e question ∈ (Chronicle.drainCalls I s calls).happenings) :
    ∃ x, Drains I s calls x ∧ (e, question) ∈ x.questions I := by
  -- the question is asked in the first call, or behind it by the session that the call left
  induction calls generalizing s with
  | nil => cases h
  | cons call calls ih =>
    unfold Chronicle.drainCalls at h
    split at h
    · next hrunning =>
      rcases mem_happenings_bind h with h | ⟨s', hs', h⟩
      · exact ⟨_, .next hrunning, asked_of_start h⟩
      · obtain ⟨x, hx, hasked⟩ := ih h
        exact ⟨x, .later hrunning hs' hx, hasked⟩
    · cases h

theorem Resumes.of_consulted
    (h : .consulted e question ∈ (Chronicle.resumeThread I s).happenings) :
    ∃ x, s.Resumes I x ∧ (e, question) ∈ x.questions I := by
  -- either the frame that is entered again asks, or a call that is made behind it
  rcases mem_happenings_bind h with h | ⟨s', hs', h⟩
  · unfold Chronicle.reenter at h
    dsimp only at h
    split at h
    · cases h
    · next entry e' hpop =>
      rw [Chronicle.happenings_bind_pure] at h
      exact ⟨_, .again hpop, asked_of_attend (.again entry) h⟩
  · obtain ⟨x, hx, hasked⟩ := Drains.of_consulted h
    exact ⟨x, .drains hs' hx, hasked⟩

theorem Polls.of_consulted {now : Time} {budget : Nat}
    (h : .consulted e question ∈ (Chronicle.pollAt I now budget s).happenings) :
    ∃ x, Polls I now budget s x ∧ (e, question) ∈ x.questions I := by
  -- over the tasks of the poll
  induction budget generalizing s with
  | zero => cases h
  | succ budget ih =>
    unfold Chronicle.pollAt at h
    split at h
    · cases h
    · next task timers hdue =>
      rcases mem_happenings_bind h with h | ⟨s', hs', h⟩
      · -- a notice asks nothing, and a step asks like the command it stands for
        cases task with
        | enterSuspended epoch location =>
          unfold Chronicle.runTask at h
          dsimp only at h
          split at h <;> cases h
        | autoStep generation =>
          unfold Chronicle.runTask at h
          dsimp only at h
          split at h
          · next hvalid =>
            obtain ⟨x, hx, hasked⟩ := Resumes.of_consulted h
            exact ⟨x, .steps hdue hvalid hx, hasked⟩
          · cases h
      · rw [Chronicle.outcome_runTask] at hs'
        obtain ⟨x, hx, hasked⟩ := ih h
        exact ⟨x, .later hdue hs' hx, hasked⟩

/-- **Whatever the interpreter asks, it asks in an entrance.** -/
theorem Enters.of_consulted {op : Operation}
    (h : .consulted e question ∈ (Chronicle.perform I s op).happenings) :
    ∃ x, s.Enters I op x ∧ (e, question) ∈ x.questions I := by
  -- the commands differ in how they set the steps, and then all resume
  have hgoes : ∀ {s' : Session σ}, s.commanded? op = some s' →
      .consulted e question ∈ (Chronicle.resumeThread I s').happenings →
      ∃ x, s.Enters I op x ∧ (e, question) ∈ x.questions I := by
    intro s' hcommanded hresumed
    obtain ⟨x, hx, hasked⟩ := Resumes.of_consulted hresumed
    exact ⟨x, .goesOn hcommanded hx, hasked⟩
  -- the announcement behind a resumption asks nothing
  have hresume : ∀ {s : Session σ}, .consulted e question ∈ (Chronicle.resume I s).happenings →
      .consulted e question ∈ (Chronicle.resumeThread I (s.command Stepping.resume)).happenings := by
    intro s h
    unfold Chronicle.resume at h
    rw [Chronicle.happenings_bind_pure] at h
    exact h
  cases op with
  | submit call =>
    rcases mem_happenings_bind h with h | ⟨-, -, h⟩
    · rcases List.mem_singleton.mp h with ⟨⟩
    · split at h
      · next hrunning => exact ⟨_, .submit hrunning, asked_of_start h⟩
      · cases h
  | stepIn => exact hgoes rfl h
  | stepOver => exact hgoes rfl h
  | stepOut =>
    change .consulted e question ∈ (Chronicle.stepOut I s).happenings at h
    unfold Chronicle.stepOut at h
    cases hcaller : s.engine.enclosingCall? with
    | some caller =>
      rw [hcaller] at h
      exact hgoes (by simp only [commanded?, hcaller]) h
    | none =>
      rw [hcaller] at h
      exact hgoes (by simp only [commanded?, hcaller]) (hresume h)
  | resume => exact hgoes rfl (hresume h)
  | autoStep =>
    unfold Chronicle.perform at h
    dsimp only at h
    split at h
    · next hauto => exact hgoes (if_pos hauto) h
    · cases h
  | poll budget =>
    obtain ⟨x, hx, hasked⟩ := Polls.of_consulted h
    exact ⟨x, .poll hx, hasked⟩
  | _ => cases h

end Consulted

/-! ### What holds in every entrance -/

/-- **What prepares the entrances**: a property of sessions that is kept between two entrances, and what
it gives for an entrance. -/
structure Prepares (I : Interpreter σ) (P : Session σ → Prop) (Q : Entrance σ → Prop) : Prop where
  call {s : Session σ} (call : DeferredCall) : P s → s.engine.status = .running → Q ⟨s, .call call⟩
  again {s : Session σ} {entry : Resumable} {e : Engine} : P s →
    (s.engine.transition .resuming {}).popOutermost = some (entry, e) →
      Q ⟨s.setEngine e, .again entry⟩
  queued {s : Session σ} (waiting : List DeferredCall) : P s →
    P (s.setEngine { s.engine with waiting })
  popped {s : Session σ} (timers : Timers) : P s → P (s.setEngine { s.engine with timers })
  commanded {s s' : Session σ} {op : Operation} : P s → s.commanded? op = some s' → P s'
  started {s s' : Session σ} {call : DeferredCall} {waiting : List DeferredCall} : P s →
    s.engine.status = .running → (Chronicle.start I s call waiting).outcome = .ok s' → P s'
  reentered {s s' : Session σ} : P s → (Chronicle.reenter I s).outcome = .ok s' → P s'
  ran {s s' : Session σ} {task : TimedTask} : P s → s.runTask I task = .ok s' → P s'

namespace Prepares

variable {P : Session σ → Prop} {Q : Entrance σ → Prop}

theorem drains (h : Prepares I P Q) (hs : P s) {calls : List DeferredCall}
    (hx : Drains I s calls x) : Q x := by
  induction hx with
  | next running => exact h.call _ (h.queued _ hs) running
  | later running made _ ih => exact ih (h.started hs running made)

theorem resumes (h : Prepares I P Q) (hs : P s) (hx : s.Resumes I x) : Q x := by
  cases hx with
  | again popped => exact h.again hs popped
  | drains reentered rest => exact h.drains (h.reentered hs reentered) rest

theorem polls (h : Prepares I P Q) (hs : P s) {now : Time} {budget : Nat}
    (hx : Polls I now budget s x) : Q x := by
  induction hx with
  | @steps s budget generation timers x due valid resumes =>
    have hstepped : (s.setEngine { s.engine with timers }).commanded? .stepIn =
        some ((s.setEngine { s.engine with timers }).command Stepping.stepIn) := rfl
    exact h.resumes (h.commanded (h.popped _ hs) hstepped) resumes
  | later due ran _ ih => exact ih (h.ran (h.popped _ hs) ran)

/-- **Every entrance of an operation is prepared.** -/
theorem enters (h : Prepares I P Q) (hs : P s) {op : Operation} (hx : s.Enters I op x) : Q x := by
  cases hx with
  | submit running => exact h.call _ hs running
  | goesOn commanded resumes => exact h.resumes (h.commanded hs commanded) resumes
  | poll polls => exact h.polls hs polls

end Prepares

/-! ### Over the machine -/

/-- **The entrances of whatever is done over the machine.** A launch calls the main function of the
program. -/
def Undertakes (fuel : Nat) (s : Session Machine) : Deed → Entrance Machine → Prop
  | .operation op, x => s.Enters (Machine.interpreter fuel) op x
  | .launch program stopOnEntry, x =>
    let engine :=
      (s.engine.fileLoaded program.file program.chunk.sourcePath fun _ => program.source).2
    let (main, vm) := s.vm.load program.chunk program.file
    let engine := if stopOnEntry then engine.pause else engine
    Enters (Machine.interpreter fuel) ⟨engine, vm⟩ (.submit ⟨.function main, []⟩) x

/-- **No run over the machine is missed.** -/
theorem Undertakes.of_consulted {fuel : Nat} {s : Session Machine} {deed : Deed} {e : Engine}
    {question : HookCall}
    (h : .consulted e question ∈ (Chronicle.undertake fuel s deed).happenings) :
    ∃ x, s.Undertakes fuel deed x ∧ (e, question) ∈ x.questions (Machine.interpreter fuel) := by
  cases deed with
  | operation op => exact Enters.of_consulted h
  | launch program stopOnEntry =>
    have hsubmitted : .consulted e question ∈ (Chronicle.perform (Machine.interpreter fuel) _
        (.submit ⟨.function _, []⟩)).happenings := h
    exact Enters.of_consulted hsubmitted

end Session

/-! ### Entrances that are ready -/

/-- **A session that is ready** for whatever comes. -/
structure Session.Ready (s : Session Machine) : Prop where
  rests : RestsProperly [] s
  correlated : s.engine.Correlated

/-- **An entrance that is ready**: nothing is parked, or all frames were parked and the outermost of
them was popped. -/
inductive Entrance.Ready : Entrance Machine → Prop where
  | call {s : Session Machine} {call : DeferredCall} (rests : s.Resting [])
    (running : s.engine.status = .running) (correlated : s.engine.Correlated) : Ready ⟨s, .call call⟩
  | again {s : Session Machine} {inner : List FrameId} {outer : FrameId}
    (rests : s.Resting (inner ++ [outer])) (correlated : s.engine.Correlated) :
    Ready ⟨s.setEngine ((s.engine.transition .resuming {}).handOver (inner.reverse.map .call)),
      .again (.call outer)⟩

namespace Session

variable {fuel : Nat} {s s' : Session Machine} {x : Entrance Machine}

namespace Ready

theorem of_restsProperly {h : List Happening} (hs : RestsProperly h s)
    (hc : s.engine.Correlated) : s.Ready :=
  ⟨⟨fun _ _ hmem => absurd hmem List.not_mem_nil, hs.proper, hs.rests⟩, hc⟩

theorem tweaked (h : s.Ready) {e : Engine} (he : s.engine.Tweaks e) (hc : s.engine.SameErrors e) :
    (s.setEngine e).Ready :=
  .of_restsProperly ((RestsProperly.steady 0).tweak h.rests he) (h.correlated.of_same hc)

theorem commanded (h : s.Ready) (f : Stepping → Stepping) : (s.command f).Ready :=
  h.tweaked (Engine.tweaks_step s.engine _ _) ⟨rfl, rfl⟩

theorem popped (h : s.Ready) (timers : Timers) : (s.setEngine { s.engine with timers }).Ready :=
  h.tweaked (Engine.tweaks_timers s.engine timers) ⟨rfl, rfl⟩

/-- Giving any of the commands leaves the session ready. -/
theorem of_commanded? (h : s.Ready) {op : Operation} (hs' : s.commanded? op = some s') :
    s'.Ready := by
  cases op with
  | stepIn | stepOver | resume =>
    cases hs'
    exact h.commanded _
  | stepOut =>
    unfold commanded? at hs'
    dsimp only at hs'
    split at hs' <;> cases hs' <;> exact h.commanded _
  | autoStep =>
    unfold commanded? at hs'
    dsimp only at hs'
    split at hs'
    · cases hs'
      exact (h.commanded _).commanded _
    · cases hs'
  | _ => cases hs'

theorem started (h : s.Ready) (hrunning : s.engine.status = .running) {call : DeferredCall}
    {waiting : List DeferredCall}
    (hs' : (Chronicle.start (Machine.interpreter fuel) s call waiting).outcome = .ok s') :
    s'.Ready :=
  .of_restsProperly ((h.rests.started fuel call waiting hrunning).ends s' hs')
    (h.correlated.served (served_start hs'))

theorem reentered (h : s.Ready)
    (hs' : (Chronicle.reenter (Machine.interpreter fuel) s).outcome = .ok s') : s'.Ready :=
  .of_restsProperly ((h.rests.reentered fuel).ends s' hs')
    ((h.correlated.of_same (Engine.sameErrors_transition _ _ _)).served (served_reenter hs'))

theorem resumed (h : s.Ready) (hs' : s.resumeThread (Machine.interpreter fuel) = .ok s') :
    s'.Ready := by
  have hserved := (h.correlated.of_same (Engine.sameErrors_transition _ _ _)).served
    (served_resumeThread hs')
  rw [← Chronicle.outcome_resumeThread] at hs'
  obtain ⟨hrests, -⟩ := ((RestsProperly.steady fuel).resumeThread h.rests).ends s' hs'
  exact .of_restsProperly hrests hserved

/-- A task leaves the session ready, whatever becomes of it. -/
theorem ran (h : s.Ready) {task : TimedTask}
    (hs' : s.runTask (Machine.interpreter fuel) task = .ok s') : s'.Ready := by
  cases does_of_runTask hs' with
  | nothing => exact h
  | @announces location hstatus =>
    refine .of_restsProperly (h.rests.announced _ location hstatus) ?_
    exact h.correlated.of_same (Engine.sameErrors_land _ _)
  | steps _ hstep => exact (h.commanded _).resumed hstep

/-- **A new session stays ready**, whatever is done to it. -/
theorem undertaken {config : Config} {saved : SavedSession} {clock : Time} {vm : Machine}
    (hvm : vm.frames = .empty) {deeds : List Deed}
    (hs : Session.undertakeAll fuel ⟨.start config saved clock, vm⟩ deeds = .ok s) : s.Ready := by
  have hcorrelated := Engine.Correlated.start config saved clock
  have hevolves := evolves_undertakeAll hs
  rw [← Chronicle.outcome_undertakeAll] at hs
  obtain ⟨hrests, -⟩ := (RestsProperly.undertaken fuel config saved clock hvm deeds).ends s hs
  exact .of_restsProperly hrests (hcorrelated.evolves hevolves)

end Ready

/-! ### Every entrance is ready -/

/-- **A session that is ready prepares its entrances.** -/
theorem prepares_ready (fuel : Nat) :
    Prepares (Machine.interpreter fuel) Ready Entrance.Ready where
  call _ h hrunning := by
    -- while the program runs nothing is parked, so that the call has the stack to itself
    obtain ⟨stack, hstack⟩ := h.rests.rests
    obtain ⟨rfl, -⟩ := hstack.unparked hrunning
    exact .call hstack hrunning h.correlated
  again := by
    intro s entry e h hpop
    obtain ⟨stack, hstack⟩ := h.rests.rests
    -- what is entered again is the outermost frame of a stack that is parked
    rcases List.eq_nil_or_concat stack with rfl | ⟨inner, outer, rfl⟩
    · rw [popOutermost_nil hstack.paused hstack.parked] at hpop
      cases hpop
    · rw [List.concat_eq_append] at hstack
      rw [popOutermost_snoc hstack] at hpop
      cases hpop
      exact .again hstack h.correlated
  queued _ h := ⟨h.rests.of_engine rfl rfl rfl rfl, h.correlated.of_same ⟨rfl, rfl⟩⟩
  popped timers h := h.popped timers
  commanded h hs' := h.of_commanded? hs'
  started h hrunning hs' := h.started hrunning hs'
  reentered h hs' := h.reentered hs'
  ran h hs' := h.ran hs'

/-- **Every entrance of whatever is done to a session that is ready is ready.** -/
theorem Undertakes.ready {deed : Deed} (h : s.Ready) (hx : s.Undertakes fuel deed x) : x.Ready := by
  cases deed with
  | operation op => exact (prepares_ready fuel).enters h hx
  | launch program stopOnEntry =>
    refine (prepares_ready fuel).enters ?_ hx
    -- the file is announced and the program loaded before the call, and neither touches a frame
    have hfile : (s.setEngine (s.engine.fileLoaded program.file program.chunk.sourcePath
        fun _ => program.source).2).Ready :=
      h.tweaked (Engine.tweaks_fileLoaded _ _ _ _) (Engine.quiet_fileLoaded _ _ _ _).sameErrors
    have hloaded : Ready ⟨(s.engine.fileLoaded program.file program.chunk.sourcePath
        fun _ => program.source).2, (s.vm.load program.chunk program.file).2⟩ := by
      obtain ⟨stack, hstack⟩ := hfile.rests.rests
      exact ⟨⟨hfile.rests.throughout, hfile.rests.proper, stack,
        hstack.load program.chunk program.file⟩, hfile.correlated⟩
    cases stopOnEntry with
    | false => exact hloaded
    | true => exact hloaded.tweaked (Engine.tweaks_pause _) (Engine.sameErrors_pause _)

end Session

/-! ### The moments of an entrance -/

namespace Entrance

open Machine (Moment rebuild)

variable {fuel : Nat} {x : Entrance Machine} {p : Moment Engine}

/-- **The moments of an entrance**: those of a call, or those behind the frames that were taken
back. -/
inductive Reaches (fuel : Nat) : Entrance Machine → Moment Engine → Prop where
  | call {s : Session Machine} {c : DeferredCall} {p : Moment Engine}
    (called : Moment.Called Engine.reply fuel c.function c.args s.vm s.engine p) :
    Reaches fuel ⟨s, .call c⟩ p
  | again {s : Session Machine} {frame : FrameId} {stack : List FrameId} {e : Engine}
    {p : Moment Engine} (rebuilt : (rebuild fuel [frame]).run Engine.reply s.engine = .ok (.ok stack, e))
    (live : ∀ f ∈ stack, ∃ a, s.vm.frame? f = some a)
    (later : Moment.Later Engine.reply ⟨fuel, stack, s.vm, e⟩ p) :
    Reaches fuel ⟨s, .again (.call frame)⟩ p

/-- **A run ends as what is left of it at any moment.** -/
theorem Reaches.outcome (h : x.Reaches fuel p) {result : RunResult} {final : Machine} {e' : Engine}
    (hrest : p.rest Engine.reply = .ok ((result, final), e')) :
    x.outcome (Machine.interpreter fuel) = .ok (result, ⟨e', final⟩) := by
  refine Session.attend_eq_ok.mpr ?_
  cases h with
  | call called => exact called.rest_eq.trans hrest
  | @again s frame stack e p rebuilt live later =>
    change (Machine.runFrame fuel frame s.vm).run Engine.reply s.engine = .ok ((result, final), e')
    rw [Machine.runFrame_eq]
    refine Attended.run_bind_eq_ok.mpr ⟨_, e, rebuilt, ?_⟩
    rw [Machine.enterAgain_live live]
    exact later.rest_eq.trans hrest

/-- **At every moment the frames are in order**, and the errors are correlated. -/
theorem Ready.reaches (h : x.Ready) (hp : x.Reaches fuel p) :
    p.machine.Runs .empty p.stack ∧ p.state.Correlated := by
  -- no question puts the log out of order
  have hreply : ∀ call (e : Engine), e.Correlated → (Engine.reply call e).2.Correlated :=
    fun call e he => he.served (e.served_reply call)
  cases h with
  | call rests running correlated =>
    cases hp with
    | call called =>
      have hkeeps := called.keeps rests.runs.bounded
      rw [rests.frames] at hkeeps
      obtain ⟨_, _, -, -, -, hlater⟩ := called
      exact ⟨hkeeps, hlater.state hreply correlated⟩
  | @again s inner outer rests correlated =>
    cases hp with
    | again rebuilt live later =>
      -- all frames are taken back, and with the last one the program runs again
      have hstatus : (s.engine.transition .resuming {}).status = .resuming := by
        rw [Engine.transition_resuming rests.paused]
      obtain ⟨hstack, rfl⟩ := Machine.run_rebuild hstatus rebuilt
      cases hstack
      rw [List.reverse_reverse] at later
      have hwoken : s.engine.woken.Correlated := by
        refine (correlated.of_same (Engine.sameErrors_transition _ .resuming {})).of_same ?_
        exact Engine.sameErrors_transition _ _ _
      exact ⟨(later.keeps rests.runs (by simp)).1, later.state hreply hwoken⟩

end Entrance

/-- The program that stumbles is stopped in front of its call and goes on: the next thing to happen in
the function that it calls is the failure. -/
theorem Session.stumbles_behind_a_stop :
    ∃ s x p f, Session.undertakeAll 10 ⟨.start {} {} 0, .stumble⟩
        [.operation .pause, .operation (.submit ⟨.function 0, [.function 1]⟩)] = .ok s ∧
      s.Undertakes 10 (.operation .resume) x ∧ x.Reaches 10 p ∧ p.Fails Engine.reply f ∧
      f.activation = Machine.adding ∧ f.mishap.passed? = some [] ∧
      (x.outcome (Machine.interpreter 10)).map (fun q => match q.1 with
        | .error error => error.stack
        | .ok _ => []) = .ok [⟨1, 0⟩, ⟨0, 0⟩] ∧
      (s.undertake 10 (.operation .resume)).map (fun s => s.engine.status) = .ok .running := by
  have hs : ∃ s x p, Session.undertakeAll 10 ⟨.start {} {} 0, .stumble⟩
      [.operation .pause, .operation (.submit ⟨.function 0, [.function 1]⟩)] = .ok s ∧
      s.Undertakes 10 (.operation .resume) x ∧ x.Reaches 10 p ∧
      (p.budget = 9 ∧ p.stack = [1, 0] ∧ p.machine.frame? 1 = some Machine.adding ∧
        (Engine.reply (.before (Machine.siteOf 1 Machine.adding ⟨12, 0, 0, 0⟩)) p.state).1 =
          Decision.proceed) ∧
      (x.outcome (Machine.interpreter 10)).map (fun q => match q.1 with
        | .error error => error.stack
        | .ok _ => []) = .ok [⟨1, 0⟩, ⟨0, 0⟩] ∧
      (s.undertake 10 (.operation .resume)).map (fun s => s.engine.status) = .ok .running :=
    ⟨_, _, _, rfl, .goesOn rfl (.again rfl),
      .again rfl (List.forall_mem_singleton.mpr ⟨_, rfl⟩) (.single (.turn rfl)),
      ⟨rfl, rfl, rfl, rfl⟩, rfl, by decide +kernel⟩
  obtain ⟨s, x, p, hs, hx, hp, ⟨hbudget, hstack, hframe, hproceeds⟩, houtcome, hresumes⟩ := hs
  exact ⟨s, x, p, _, hs, hx, hp, Machine.fails_adding hbudget hstack hframe hproceeds, rfl, rfl,
    houtcome, hresumes⟩

end BytecodeDebugger
