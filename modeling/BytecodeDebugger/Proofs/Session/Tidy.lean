import BytecodeDebugger.Proofs.Machine.Tidy
import BytecodeDebugger.Proofs.Session.Evolution
import BytecodeDebugger.Proofs.Session.Undisturbed

/-!
# No frame is remembered that is gone

Between operations the engine remembers frames as the target of a step and in its barriers. Frames end
in many ways: they return, they fall off their end, they go down with a failure at any depth, in a call
from the host, in one that waited, or in a call chain that was entered again. Whatever happens to them,
a session at rest is tidy (`Session.Tidies`): the frames that it remembers are parked.

A command may set a new target, but only to an entry that is parked. Everything else that a client can
do leaves target and barriers alone, or runs the machine, which keeps them tidy turn by turn
(`Machine.tidyWise`).

Main statement: `Session.Tidies.undertakeAll`.
-/

namespace BytecodeDebugger

open Chronicle (outcome_bind_eq_ok)

/-! ### The end of a run -/

/-- **The end of a run is dealt with tidily.** A failure makes the engine forget all frames. -/
theorem Engine.Tidy.conclude {e : Engine} {result : RunResult} (origin : Option StackEntry)
    (h : Machine.EndsWith Engine.Tidy (fun e => e.Tidy []) result e)
    (hclears : Op.returnCode ∈ (e.conclude origin result).config.stepClearingOpcodes) :
    (e.conclude origin result).Tidy [] := by
  cases result with
  | ok outcome => cases outcome <;> exact h
  | error error =>
    -- a failure forgets the target and every barrier
    obtain ⟨e', -, heq⟩ := e.fail_eq error origin
    refine .of_forgotten hclears ?_ ?_
    · change (e.fail error origin).2.stepping.target = none
      rw [heq]
      rfl
    · change (e.fail error origin).2.barriers = .empty
      rw [heq]

/-- When the parked frames are handed back they are in progress again. -/
theorem Engine.Tidy.woken {e : Engine} {stack : List FrameId} (h : e.Tidy [])
    (hs : e.status ≠ .resuming) (hp : e.parked = (stack.map Resumable.call).reverse) :
    e.woken.Tidy stack := by
  rw [Engine.woken_eq hs]
  refine h.of_less rfl (.inr rfl) (fun _ hf => hf) fun f hf => .inl ?_
  have hmem := hf.resolve_left List.not_mem_nil
  rw [hp] at hmem
  obtain ⟨g, hg, hcall⟩ := List.mem_map.mp (List.mem_reverse.mp hmem)
  cases hcall
  exact hg

namespace Session

/-! ### The invariant -/

/-- **A tidy session at rest.** -/
structure Tidies (s : Session Machine) : Prop where
  rests : ∃ stack, s.Resting stack
  tidy : s.engine.Tidy []

namespace Tidies

variable {s s' : Session Machine} {e : Engine} {fuel : Nat}

/-- A change that does not concern the frames. -/
theorem of_engine (h : s.Tidies) (hs : e.status = s.engine.status)
    (hp : e.parked = s.engine.parked) (hc : e.config = s.engine.config)
    (ht : e.stepping.target = s.engine.stepping.target)
    (hb : e.barriers = s.engine.barriers) : (s.setEngine e).Tidies := by
  obtain ⟨stack, hstack⟩ := h.rests
  exact ⟨⟨stack, hstack.of_engine hs hp⟩, h.tidy.of_eq hc ht hb hp⟩

theorem aside (h : s.Tidies) (he : s.engine.Aside e) : (s.setEngine e).Tidies :=
  h.of_engine he.status he.parked he.config (congrArg Stepping.target he.stepping) he.barriers

/-- A pause concerns no frame. -/
theorem paused (h : s.Tidies) : (s.setEngine s.engine.pause).Tidies := by
  unfold Engine.pause
  split
  · exact h.of_engine rfl rfl rfl rfl rfl
  · exact h

/-- **A command may aim at what is parked.** -/
theorem commanded (h : s.Tidies) (f : Stepping → Stepping)
    (hf : ∀ entry, (f s.engine.stepping).target = some entry → entry ∈ s.engine.parked) :
    (s.command f).Tidies := by
  obtain ⟨stack, hstack⟩ := h.rests
  refine ⟨⟨stack, hstack.of_engine rfl rfl⟩, h.tidy.clears, fun entry hentry => ?_, h.tidy.barriers⟩
  have hparked := hf entry hentry
  -- over the machine only calls are parked
  obtain ⟨frame, -, rfl⟩ : ∃ frame ∈ stack, Resumable.call frame = entry := by
    rw [hstack.parked] at hparked
    exact List.mem_map.mp (List.mem_reverse.mp hparked)
  exact ⟨frame, rfl, .inr hparked⟩

theorem announced (h : s.Tidies) (I : Interpreter Machine) (location : SourceLocation)
    (hsuspending : s.engine.status = .suspending) : (s.enterSuspended I location).Tidies := by
  obtain ⟨stack, hstack⟩ := h.rests
  have hrests := hstack.enterSuspended (I := I) hsuspending location
  obtain ⟨payload, timers, heq⟩ := Session.Resting.enterSuspended_eq I hsuspending location
  rw [heq] at hrests ⊢
  exact ⟨⟨stack, hrests⟩, h.tidy.of_eq rfl rfl rfl rfl⟩

theorem load {e : Engine} {vm : Machine} (h : Tidies ⟨e, vm⟩) (chunk : Chunk) (file : String) :
    Tidies ⟨e, (vm.load chunk file).2⟩ := by
  obtain ⟨stack, hstack⟩ := h.rests
  exact ⟨⟨stack, hstack.load chunk file⟩, h.tidy⟩

/-! ### Code that runs -/

/-- **A call that is started.** -/
theorem started (h : s.Tidies) {call : DeferredCall} {waiting : List DeferredCall}
    (hrunning : s.engine.status = .running)
    (hs' : (Chronicle.start (Machine.interpreter fuel) s call waiting).outcome = .ok s') :
    s'.Tidies := by
  obtain ⟨stack, hstack⟩ := h.rests
  obtain ⟨rfl, hparked⟩ := hstack.unparked hrunning
  have hconfig := (served_start hs').config
  obtain ⟨x, e', rfl, hrun, hends⟩ := start_advances hstack hs'
  have hidle : ({ s.engine with waiting } : Engine).Tidy [] := h.tidy.of_eq rfl rfl rfl rfl
  have hgoes : Machine.Goes Engine.Tidy (fun _ => True) (fun e => e.Tidy [])
      (Machine.call fuel call.function call.args s.vm) { s.engine with waiting } :=
    Machine.tidyWise.call hstack.runs.bounded hrunning hparked (hidle.entered _) hidle
  refine ⟨hends.resting hrunning hparked none, .conclude none (hgoes.ends x e' hrun) ?_⟩
  rw [hconfig]
  exact h.tidy.clears

/-- **Parked frames that are entered again.** -/
theorem reentered (h : s.Tidies)
    (hs' : (Chronicle.reenter (Machine.interpreter fuel) s).outcome = .ok s') : s'.Tidies := by
  obtain ⟨stack, hstack⟩ := h.rests
  have hresuming := Engine.transition_resuming hstack.paused
  have hwoken := Engine.woken_eq hstack.paused
  have htidy := h.tidy.woken hstack.paused hstack.parked
  rcases List.eq_nil_or_concat stack with rfl | ⟨inner, outer, rfl⟩
  · -- nothing is parked
    rw [reenter_nil _ hstack.paused hstack.parked] at hs'
    cases hs'
    exact ⟨⟨[], hstack.woken⟩, htidy⟩
  · rw [List.concat_eq_append] at hstack htidy
    have hconfig : s'.engine.config = s.engine.config := by
      rw [(served_reenter hs').config, hresuming]
    obtain ⟨x, e', origin, rfl, hrun, hends⟩ := reenter_advances hstack hs'
    have hreversed : (outer :: inner.reverse).reverse = inner ++ [outer] := by simp
    -- the parked frames run on with the innermost one first
    have hends' : Machine.EndsWith Engine.Tidy (fun e => e.Tidy []) x.1 e' :=
      Machine.tidyWise.runFrame_ends (hreversed ▸ hstack.runs) (by rw [hresuming])
        (hreversed ▸ htidy) hrun
    refine ⟨hends.resting (by rw [hwoken]) (by rw [hwoken]) origin, .conclude origin hends' ?_⟩
    rw [hconfig]
    exact h.tidy.clears

/-- Waiting calls are made until none is left or one of them is held up. -/
theorem drained {calls : List DeferredCall} (h : s.Tidies)
    (hs' : (Chronicle.drainCalls (Machine.interpreter fuel) s calls).outcome = .ok s') :
    s'.Tidies := by
  induction calls generalizing s with
  | nil =>
    cases hs'
    exact h
  | cons call calls ih =>
    unfold Chronicle.drainCalls at hs'
    split at hs'
    · next hrunning =>
      obtain ⟨s₁, hs₁, hrest⟩ := outcome_bind_eq_ok.mp hs'
      exact ih (h.started hrunning hs₁) hrest
    · cases hs'
      exact h

theorem resumed (h : s.Tidies)
    (hs' : (Chronicle.resumeThread (Machine.interpreter fuel) s).outcome = .ok s') :
    s'.Tidies := by
  obtain ⟨s₁, hs₁, hrest⟩ := outcome_bind_eq_ok.mp hs'
  exact (h.reentered hs₁).drained hrest

/-! ### Operations -/

theorem submitted (h : s.Tidies) {call : DeferredCall}
    (hs' : (Chronicle.submit (Machine.interpreter fuel) s call).outcome = .ok s') : s'.Tidies := by
  obtain ⟨-, -, hs'⟩ := outcome_bind_eq_ok.mp hs'
  split at hs'
  · next hrunning => exact h.started hrunning hs'
  · cases hs'
    exact h.of_engine rfl rfl rfl rfl rfl

theorem stepped (h : s.Tidies)
    (hs' : (Chronicle.stepIn (Machine.interpreter fuel) s).outcome = .ok s') : s'.Tidies :=
  (h.commanded Stepping.stepIn fun _ hentry => by cases hentry).resumed hs'

theorem continued (h : s.Tidies)
    (hs' : (Chronicle.resume (Machine.interpreter fuel) s).outcome = .ok s') : s'.Tidies := by
  obtain ⟨s₁, hs₁, hs'⟩ := outcome_bind_eq_ok.mp hs'
  have hgone := (h.commanded Stepping.resume fun _ hentry => by cases hentry).resumed hs₁
  cases hs'
  exact hgone.of_engine rfl rfl rfl rfl rfl

/-- The entries that steps aim at are parked. -/
theorem mem_parked {entry : Resumable} (h : entry ∈ s.engine.resumeStack) :
    entry ∈ s.engine.parked := List.mem_reverse.mp h

theorem steppedOver (h : s.Tidies) :
    (s.command fun stepping => stepping.stepOver s.engine.innermost?).Tidies :=
  h.commanded _ fun _ hentry => mem_parked (List.mem_of_head? hentry)

theorem steppedOut (h : s.Tidies)
    (hs' : (Chronicle.stepOut (Machine.interpreter fuel) s).outcome = .ok s') : s'.Tidies := by
  unfold Chronicle.stepOut at hs'
  split at hs'
  · next caller hcaller =>
    refine (h.commanded _ fun entry hentry => ?_).resumed hs'
    cases hentry
    exact mem_parked (List.mem_of_mem_tail (List.mem_of_find?_eq_some hcaller))
  · exact h.continued hs'

theorem ran (h : s.Tidies) {task : TimedTask}
    (hs' : (Chronicle.runTask (Machine.interpreter fuel) s task).outcome = .ok s') : s'.Tidies := by
  cases task with
  | enterSuspended epoch location =>
    unfold Chronicle.runTask at hs'
    dsimp only at hs'
    split at hs'
    · next hdue =>
      cases hs'
      exact h.announced _ location hdue.2
    · cases hs'
      exact h
  | autoStep generation =>
    unfold Chronicle.runTask at hs'
    dsimp only at hs'
    split at hs'
    · exact h.stepped hs'
    · cases hs'
      exact h

theorem polled {now : Time} {budget : Nat} (h : s.Tidies)
    (hs' : (Chronicle.pollAt (Machine.interpreter fuel) now budget s).outcome = .ok s') :
    s'.Tidies := by
  -- over the budget; a task that is due runs on an engine whose timers no longer hold it
  induction budget generalizing s with
  | zero => cases hs'
  | succ budget ih =>
    unfold Chronicle.pollAt at hs'
    split at hs'
    · cases hs'
      exact h
    · next task timers _ =>
      obtain ⟨s₁, hs₁, hrest⟩ := outcome_bind_eq_ok.mp hs'
      have htaken : (s.setEngine { s.engine with timers }).Tidies :=
        h.of_engine rfl rfl rfl rfl rfl
      exact ih (htaken.ran hs₁) hrest

/-- **Every operation keeps a session tidy.** -/
theorem performed (h : s.Tidies) {op : Operation}
    (hs' : (Chronicle.perform (Machine.interpreter fuel) s op).outcome = .ok s') : s'.Tidies := by
  by_cases hset : op.isAside = true
  · obtain ⟨outcome, hsilent, hends⟩ :=
      Chronicle.perform_aside (Machine.interpreter fuel) s hset
    rw [hsilent] at hs'
    obtain ⟨e, haside, rfl⟩ := hends s' hs'
    exact h.aside haside
  · -- what is left runs code, or sets a target, or asks for a stop
    cases op with
    | submit call => exact h.submitted hs'
    | stepIn => exact h.stepped hs'
    | stepOver => exact h.steppedOver.resumed hs'
    | stepOut => exact h.steppedOut hs'
    | resume => exact h.continued hs'
    | poll budget => exact h.polled hs'
    | autoStep =>
      have htoggled : (s.command Stepping.toggleAuto).Tidies := h.of_engine rfl rfl rfl rfl rfl
      unfold Chronicle.perform at hs'
      dsimp only at hs'
      split at hs'
      · exact htoggled.stepped hs'
      · cases hs'
        exact htoggled
    | pause =>
      cases hs'
      exact h.paused
    | _ => exact absurd rfl hset

theorem launched (h : s.Tidies) {program : Program} {stopOnEntry : Bool}
    (hs' : (Chronicle.launch fuel program stopOnEntry s).outcome = .ok s') : s'.Tidies := by
  have hloaded : Tidies ⟨(s.engine.fileLoaded program.file program.chunk.sourcePath
      fun _ => program.source).2, (s.vm.load program.chunk program.file).2⟩ :=
    (h.aside (Engine.aside_fileLoaded _ _ _ _)).load program.chunk program.file
  unfold Chronicle.launch at hs'
  dsimp only at hs'
  cases stopOnEntry with
  | false => exact hloaded.submitted hs'
  | true => exact hloaded.paused.submitted hs'

/-- **Whatever is done, a tidy session stays tidy.** -/
theorem undertakeAll (h : s.Tidies) {deeds : List Deed}
    (hs' : (Chronicle.undertakeAll fuel s deeds).outcome = .ok s') : s'.Tidies := by
  induction deeds generalizing s with
  | nil =>
    cases hs'
    exact h
  | cons deed deeds ih =>
    obtain ⟨s₁, hs₁, hrest⟩ := outcome_bind_eq_ok.mp hs'
    refine ih ?_ hrest
    cases deed with
    | operation op => exact h.performed hs₁
    | launch program stopOnEntry => exact h.launched hs₁

/-- A new session over a machine without frames is tidy. -/
theorem fresh {config : Config} (hclears : Op.returnCode ∈ config.stepClearingOpcodes)
    (saved : SavedSession) (clock : Time) {vm : Machine} (hvm : vm.frames = .empty) :
    Tidies ⟨.start config saved clock, vm⟩ :=
  ⟨⟨[], .fresh config saved clock hvm⟩, .of_forgotten hclears rfl rfl⟩

end Tidies

end Session

end BytecodeDebugger
