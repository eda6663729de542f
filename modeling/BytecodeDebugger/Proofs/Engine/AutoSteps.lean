import BytecodeDebugger.Proofs.Engine.Notices

/-!
# Automatic steps while code runs

A step that was put off is made if the program is still suspended, the steps are still automatic and
no command was given since. Code that runs *spares* the automatic steps (`Engine.Spares`): it may put
off the notice of a stop, but no step; it gives no command; and it does not announce itself as
suspended, which only the task of a notice does.
-/

namespace BytecodeDebugger.Engine

/-- **The automatic steps are spared**: those that were put off are put off still, and they mean what
they meant. -/
structure Spares (e e' : Engine) : Prop where
  config : e'.config = e.config
  generation : e'.generation = e.generation
  auto : e'.stepping.auto = e.stepping.auto
  steps : ∀ due generation,
    (⟨due, .autoStep generation⟩ : Timer) ∈ e'.timers ↔ ⟨due, .autoStep generation⟩ ∈ e.timers
  suspended : e'.status = .suspended ↔ e.status = .suspended

variable {e e' e'' : Engine}

namespace Spares

theorem refl (e : Engine) : e.Spares e := ⟨rfl, rfl, rfl, fun _ _ => .rfl, .rfl⟩

theorem trans (h : e.Spares e') (h' : e'.Spares e'') : e.Spares e'' :=
  ⟨h'.config.trans h.config, h'.generation.trans h.generation, h'.auto.trans h.auto,
    fun due generation => (h'.steps due generation).trans (h.steps due generation),
    h'.suspended.trans h.suspended⟩

end Spares

/-- A suspended program does not run again by itself. -/
theorem spares_running (e : Engine) : e.Spares (e.transition .running {}) := by
  -- from suspended there is no way back to running in one step
  have hstatus : (e.transition .running {}).status = .suspended ↔ e.status = .suspended := by
    rcases e.transition_cases .running {} with ⟨-, hkept, -⟩ | ⟨hallowed, hmade, -⟩
    · rw [hkept]
    · rw [hmade]
      constructor
      · intro hs
        cases hs
      · intro hs
        rw [hs] at hallowed
        cases hallowed
  obtain ⟨_, _, _, _, h⟩ := e.transition_eq .running {}
  rw [h] at hstatus ⊢
  exact ⟨rfl, rfl, rfl, fun _ _ => .rfl, hstatus⟩

/-- The notice of a stop is put off, which is no step. -/
theorem spares_suspendAt {site : Site} (h : e.shouldSuspend site = true) :
    e.Spares (e.suspendAt site) := by
  rw [suspendAt_eq h]
  refine ⟨rfl, rfl, rfl, fun due generation => ?_, ?_⟩
  · refine List.mem_append.trans ⟨fun hmem => hmem.resolve_right fun hnew => ?_, .inl⟩
    cases List.mem_singleton.mp hnew
  · rw [(running_of_shouldSuspend h).1]
    exact ⟨fun hs => (by cases hs), fun hs => (by cases hs)⟩

theorem Serves.spares (h : e.Serves e') : e.Spares e' := by
  cases h with
  | notes | retargets | creates => exact ⟨rfl, rfl, rfl, fun _ _ => .rfl, .rfl⟩
  | runs => exact spares_running e
  | suspends site h => exact spares_suspendAt h
  | logs index =>
    rw [announce_eq]
    exact ⟨rfl, rfl, rfl, fun _ _ => .rfl, .rfl⟩

/-- **Code that runs spares the automatic steps.** -/
theorem Served.spares (h : e.Served e') : e.Spares e' :=
  h.relates .refl (fun _ _ _ => .trans) fun _ _ hserves => hserves.spares

theorem spares_toggledBreakpoint (e : Engine) (file : String) (line : Nat) :
    e.Spares (e.toggledBreakpoint file line) := by
  have hsame : ∀ e : Engine, e.Spares e.toggleStops.2 := fun _ =>
    ⟨rfl, rfl, rfl, fun _ _ => .rfl, .rfl⟩
  refine toggledBreakpoint_relates (.refl e) .trans hsame file line ?_
  intro isSet breakpoints _
  exact ⟨rfl, rfl, rfl, fun _ _ => .rfl, .rfl⟩

theorem spares_fileLoaded (e : Engine) (jsonUrl : String) (path? : Option String)
    (fetch : String → Except String String) : e.Spares (e.fileLoaded jsonUrl path? fetch).2 := by
  unfold fileLoaded
  dsimp only
  split <;> exact ⟨rfl, rfl, rfl, fun _ _ => .rfl, .rfl⟩

/-! ### Steps that are void -/

/-- All steps that were put off are void. -/
def Void (e : Engine) : Prop :=
  ∀ due generation, ⟨due, .autoStep generation⟩ ∈ e.timers → generation < e.generation

/-- No step that was put off belongs to a command to come. -/
def Timely (e : Engine) : Prop :=
  ∀ due generation, ⟨due, .autoStep generation⟩ ∈ e.timers → generation ≤ e.generation

theorem Void.spared (h : e.Void) (hspares : e.Spares e') : e'.Void := by
  intro due generation hmem
  rw [hspares.generation]
  exact h due generation ((hspares.steps due generation).mp hmem)

theorem Timely.spared (h : e.Timely) (hspares : e.Spares e') : e'.Timely := by
  intro due generation hmem
  rw [hspares.generation]
  exact h due generation ((hspares.steps due generation).mp hmem)

theorem Void.timely (h : e.Void) : e.Timely :=
  fun due generation hmem => Nat.le_of_lt (h due generation hmem)

theorem Timely.popped (h : e.Timely) {now : Time} {task : TimedTask} {timers : Timers}
    (hpop : e.timers.popDue now = some (task, timers)) : ({ e with timers } : Engine).Timely := by
  obtain ⟨due, -, -, rfl⟩ := Timers.popDue_eq_some hpop
  exact fun due' generation hmem => h due' generation (List.mem_of_mem_erase hmem)

/-- **A command makes all steps void.** -/
theorem Timely.void (h : e.Timely) (stepping : Stepping) :
    ({ e.beginCommand with stepping } : Engine).Void :=
  fun due generation hmem => Nat.lt_succ_of_le (h due generation hmem)

theorem Void.transition (h : e.Void) (next : Status) (payload : Payload) :
    (e.transition next payload).Void := by
  obtain ⟨_, _, _, _, heq⟩ := e.transition_eq next payload
  rw [heq]
  exact h

/-- The engine after a stop was announced. -/
theorem land_of_suspending (h : e.status = .suspending) (payload : Payload) :
    e.land payload = { e with
      status := .suspended
      payload
      requests := e.requests.push ⟨.suspending, .suspended, e.parked.length⟩
      events := e.events.push (.stateUpdated .suspended payload)
      timers :=
        if e.stepping.auto then
          e.timers.schedule (e.clock + e.config.autoStepDelay) (.autoStep e.generation)
        else e.timers } := by
  unfold land
  rw [transition_allowed (by rw [h]; rfl), h]
  dsimp only
  -- with auto-stepping, and without
  split <;> rfl

/-- While steps are automatic, a stop that is announced puts off one step. -/
theorem mem_timers_land (h : e.status = .suspending) (payload : Payload) {due : Time}
    {generation : Nat} :
    ⟨due, .autoStep generation⟩ ∈ (e.land payload).timers ↔
      ⟨due, .autoStep generation⟩ ∈ e.timers ∨ e.stepping.auto = true ∧
        due = e.clock + e.config.autoStepDelay ∧ generation = e.generation := by
  rw [land_of_suspending h]
  dsimp only
  split
  · next hauto =>
    unfold Timers.schedule
    simp only [List.mem_append, List.mem_singleton, Timer.mk.injEq, TimedTask.autoStep.injEq, hauto,
      true_and]
  · next hauto => simp only [hauto, Bool.false_eq_true, false_and, or_false]

end BytecodeDebugger.Engine
