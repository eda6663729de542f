import BytecodeDebugger.Proofs.Machine.Resemblance
import BytecodeDebugger.Proofs.Session.Chronicle

/-!
# Sessions whose interpreters resemble each other

An interpreter *respects* a relation of its states if it shows the same of related states and if, on
related states, its entries ask the same and leave related states (`Interpreter.Respects`). Sessions
with the same engine over related states then go on in the same way, whatever is done to them. The
machine respects the relation of machines that differ by what they report.

Main statements:

* `Session.Resembles.perform`, `Session.Resembles.pollAt` — operations, for every interpreter;
* `Machine.respects`, `Session.Resembles.undertake` — the machine, and whatever is done over it.
-/

namespace BytecodeDebugger

/-- **An interpreter respects a relation of its states.** -/
structure Interpreter.Respects {σ : Type} (I : Interpreter σ) (R : σ → σ → Prop) : Prop where
  frame? : ∀ {vm vm' : σ}, R vm vm' → I.frame? vm' = I.frame? vm
  globals : ∀ {vm vm' : σ}, R vm vm' → I.globals vm' = I.globals vm
  fields : ∀ {vm vm' : σ}, R vm vm' → I.fields vm' = I.fields vm
  renderStack : ∀ {vm vm' : σ}, R vm vm' → I.renderStack vm' = I.renderStack vm
  call : ∀ f args {vm vm' : σ}, R vm vm' →
    (I.call f args vm).Matches (Alongside R) (I.call f args vm')
  reenter : ∀ entry {vm vm' : σ}, R vm vm' →
    (I.reenter entry vm).Matches (Alongside R) (I.reenter entry vm')

namespace Session

variable {σ : Type} {I : Interpreter σ} {R : σ → σ → Prop} {s s' : Session σ}

/-- **Sessions with the same engine**, over related states of the interpreter. -/
structure Resembles (R : σ → σ → Prop) (s s' : Session σ) : Prop where
  engine : s'.engine = s.engine
  vm : R s.vm s'.vm

namespace Resembles

theorem withEngine {vm vm' : σ} (h : R vm vm') (e : Engine) :
    Session.Resembles R ⟨e, vm⟩ ⟨e, vm'⟩ := ⟨rfl, h⟩

theorem setEngine (h : s.Resembles R s') (e : Engine) :
    (s.setEngine e).Resembles R (s'.setEngine e) := ⟨rfl, h.vm⟩

theorem attend (h : s.Resembles R s') {α : Type} {entry : σ → Attended (α × σ)}
    (hentry : (entry s.vm).Matches (Alongside R) (entry s'.vm)) :
    Outcomes (Alongside (Session.Resembles R)) (s.attend entry) (s'.attend entry) := by
  rw [attend_eq, attend_eq, h.engine]
  refine (hentry.run Engine.reply s.engine).map ?_
  rintro ⟨⟨a, vm⟩, e⟩ ⟨⟨_, vm'⟩, _⟩ ⟨⟨rfl, hvm⟩, rfl⟩
  exact ⟨rfl, rfl, hvm⟩

variable (hI : I.Respects R)
include hI

theorem drainCalls (h : s.Resembles R s') (calls : List DeferredCall) :
    Outcomes (Session.Resembles R) (s.drainCalls I calls) (s'.drainCalls I calls) := by
  induction calls generalizing s s' with
  | nil => exact .done h
  | cons call calls ih =>
    unfold Session.drainCalls
    rw [h.engine]
    split
    · have hqueue := h.setEngine { s.engine with waiting := calls }
      refine (hqueue.attend (hI.call call.function call.args hqueue.vm)).bind ?_
      rintro ⟨result, s₁⟩ ⟨_, s₁'⟩ ⟨rfl, h₁⟩
      cases result with
      | ok outcome => exact ih h₁
      | error error =>
        have hengine : s₁'.engine = s₁.engine := h₁.engine
        dsimp only
        rw [hengine]
        exact ih (h₁.setEngine _)
    · exact .done h

theorem drain (h : s.Resembles R s') : Outcomes (Session.Resembles R) (s.drain I) (s'.drain I) := by
  unfold Session.drain
  rw [h.engine]
  exact h.drainCalls hI _

/-- **The program goes on in the same way.** -/
theorem resumeThread (h : s.Resembles R s') :
    Outcomes (Session.Resembles R) (s.resumeThread I) (s'.resumeThread I) := by
  unfold Session.resumeThread
  dsimp only
  rw [h.engine]
  cases (s.engine.transition .resuming {}).popOutermost with
  | none => exact (h.setEngine _).drain hI
  | some p =>
    obtain ⟨entry, e⟩ := p
    dsimp only
    rw [hI.frame? h.vm]
    refine ((h.setEngine e).attend (hI.reenter entry h.vm)).bind ?_
    rintro ⟨result, s₁⟩ ⟨_, s₁'⟩ ⟨rfl, h₁⟩
    -- what comes after the entry is up to the engine and the result
    have hengine : s₁'.engine = s₁.engine := h₁.engine
    dsimp only
    rw [hengine]
    exact (h₁.setEngine _).drain hI

omit hI in
theorem command (h : s.Resembles R s') (f : Stepping → Stepping) :
    (s.command f).Resembles R (s'.command f) := by
  unfold Session.command
  rw [h.engine]
  exact h.setEngine _

theorem goOn (h : s.Resembles R s') (f : Stepping → Stepping) :
    Outcomes (Session.Resembles R) ((s.command f).resumeThread I) ((s'.command f).resumeThread I) :=
  (h.command f).resumeThread hI

theorem resume (h : s.Resembles R s') :
    Outcomes (Session.Resembles R) (s.resume I) (s'.resume I) := by
  refine (h.goOn hI Stepping.resume).bind fun s₁ s₁' h₁ => .done ?_
  rw [h₁.engine]
  exact h₁.setEngine _

theorem stepOver (h : s.Resembles R s') :
    Outcomes (Session.Resembles R) (s.stepOver I) (s'.stepOver I) := by
  unfold Session.stepOver
  rw [h.engine]
  exact h.goOn hI _

theorem stepOut (h : s.Resembles R s') :
    Outcomes (Session.Resembles R) (s.stepOut I) (s'.stepOut I) := by
  unfold Session.stepOut
  rw [h.engine]
  split
  · exact h.goOn hI _
  · exact h.resume hI

theorem autoStep (h : s.Resembles R s') :
    Outcomes (Alongside (Session.Resembles R)) (s.autoStep I) (s'.autoStep I) := by
  have htoggled := h.command Stepping.toggleAuto
  unfold Session.autoStep
  dsimp only
  rw [htoggled.engine]
  split
  · exact (htoggled.goOn hI Stepping.stepIn).bind fun s₁ s₁' h₁ => .done ⟨rfl, h₁⟩
  · exact .done ⟨rfl, htoggled⟩

/-- A call is made by both, or waits in both. -/
theorem execute (h : s.Resembles R s') (function : Value) (args : List Value) :
    Outcomes (Alongside (Session.Resembles R)) (s.execute I function args)
      (s'.execute I function args) := by
  unfold Session.execute
  rw [h.engine]
  split
  · refine (h.attend (hI.call function args h.vm)).bind ?_
    rintro ⟨result, s₁⟩ ⟨_, s₁'⟩ ⟨rfl, h₁⟩
    cases result with
    | ok outcome => cases outcome <;> exact .done ⟨rfl, h₁⟩
    | error error =>
      have hengine : s₁'.engine = s₁.engine := h₁.engine
      dsimp only
      rw [hengine]
      exact .done ⟨rfl, h₁.setEngine _⟩
  · exact .done ⟨rfl, h.setEngine _⟩

/-- A snapshot shows what the interpreter shows. -/
theorem enterSuspended (h : s.Resembles R s') (location : SourceLocation) :
    (s.enterSuspended I location).Resembles R (s'.enterSuspended I location) := by
  have hsnapshot : Snapshot.build s.engine.config I s'.vm s.engine.resumeStack =
      Snapshot.build s.engine.config I s.vm s.engine.resumeStack := by
    unfold Snapshot.build Snapshot.globalsOf Snapshot.localsOf Snapshot.upvaluesOf
      Snapshot.callStackOf Snapshot.stackEntries Snapshot.scene
    rw [hI.frame? h.vm, hI.globals h.vm, hI.fields h.vm, hI.renderStack h.vm]
  unfold Session.enterSuspended
  dsimp only
  rw [h.engine, hsnapshot]
  exact h.setEngine _

theorem runTask (h : s.Resembles R s') (task : TimedTask) :
    Outcomes (Session.Resembles R) (s.runTask I task) (s'.runTask I task) := by
  -- whether a task still counts is up to the engine, which is the same on both sides
  cases task with
  | enterSuspended epoch location =>
    unfold Session.runTask
    dsimp only
    rw [h.engine]
    split
    · exact .done (h.enterSuspended hI location)
    · exact .done h
  | autoStep generation =>
    unfold Session.runTask
    dsimp only
    rw [h.engine]
    split
    · exact h.goOn hI Stepping.stepIn
    · exact .done h

/-- **A poll.** -/
theorem pollAt (h : s.Resembles R s') (now : Time) (budget : Nat) :
    Outcomes (Session.Resembles R) (s.pollAt I now budget) (s'.pollAt I now budget) := by
  -- over the budget; what the timers hold is part of the engine, which is the same on both sides
  induction budget generalizing s s' with
  | zero => exact .stop _
  | succ budget ih =>
    unfold Session.pollAt
    rw [h.engine]
    cases s.engine.timers.popDue now with
    | none => exact .done h
    | some p =>
      obtain ⟨task, timers⟩ := p
      have hpopped := h.setEngine { s.engine with timers }
      exact (hpopped.runTask hI task).bind fun s₁ s₁' h₁ => ih h₁

/-- **Any operation.** -/
theorem perform (h : s.Resembles R s') (op : Operation) :
    Outcomes (Session.Resembles R) (s.perform I op) (s'.perform I op) := by
  -- an operation that runs no code asks the engine alone
  have hquiet : ∀ f : Engine → Engine, Outcomes (Session.Resembles R)
      (.ok (s.setEngine (f s.engine))) (.ok (s'.setEngine (f s'.engine))) := by
    intro f
    rw [h.engine]
    exact .done (h.setEngine _)
  cases op with
  | submit call => exact (h.execute hI _ _).map fun _ _ hdone => hdone.2
  | stepIn => exact h.goOn hI _
  | stepOver => exact h.stepOver hI
  | stepOut => exact h.stepOut hI
  | resume => exact h.resume hI
  | autoStep => exact (h.autoStep hI).map fun _ _ hdone => hdone.2
  | poll budget =>
    unfold Session.perform Session.poll
    rw [h.engine]
    exact h.pollAt hI _ _
  | pause => exact hquiet Engine.pause
  | toggleBreakpoint file line =>
    change Outcomes _ (s.toggle file line) (s'.toggle file line)
    -- it depends on the line alone whether a toggle ends
    rw [toggle_eq, toggle_eq]
    split
    · exact hquiet (·.toggledBreakpoint file line)
    · exact .stop .overflow
  | toggleStops => exact hquiet (·.toggleStops.2)
  | setClock now => exact hquiet (·.setClock now)
  | fileLoaded jsonUrl path? fetch => exact hquiet (·.fileLoaded jsonUrl path? fetch |>.2)
  | takeUnsaved => exact hquiet (·.takeUnsaved.2)
  | reportUncaught error => exact hquiet (·.reportUncaught error |>.2)
  | reportText message => exact hquiet (·.reportText message |>.2)

end Resembles

end Session

/-! ### Over the machine -/

/-- **The machine does not read what it reports**, and shows nothing of it. -/
theorem Machine.respects (fuel : Nat) (R : Reporting) :
    (Machine.interpreter fuel).Respects (Machine.Resembles R) where
  frame? h := by
    cases h
    rfl
  globals h := by
    cases h
    rfl
  fields h := by
    cases h
    rfl
  renderStack h := by
    cases h
    rfl
  call f args _ _ h := h.call fuel f args
  reenter entry _ _ h := by
    cases entry with
    | call frame => exact h.runFrame fuel frame
    | coroutine id => exact .done ⟨rfl, h⟩

namespace Session

variable {R : Reporting} {s s' : Session Machine}

theorem Resembles.launch (h : s.Resembles (Machine.Resembles R) s') (fuel : Nat) (program : Program)
    (stopOnEntry : Bool) :
    Outcomes (Alongside (Session.Resembles (Machine.Resembles R)))
      (s.launch fuel program stopOnEntry) (s'.launch fuel program stopOnEntry) := by
  obtain ⟨hmain, hloaded⟩ := h.vm.mint (.closure ⟨program.chunk.main, [], program.file⟩)
  unfold Session.launch Machine.load
  dsimp only
  rw [h.engine, ← hmain]
  exact (Resembles.withEngine hloaded _).execute (Machine.respects fuel R) _ _

/-- **Whatever is done over the machine.** -/
theorem Resembles.undertake (h : s.Resembles (Machine.Resembles R) s') (fuel : Nat) (deed : Deed) :
    Outcomes (Session.Resembles (Machine.Resembles R)) (s.undertake fuel deed)
      (s'.undertake fuel deed) := by
  cases deed with
  | operation op => exact h.perform (Machine.respects fuel R) op
  | launch program stopOnEntry =>
    exact (h.launch fuel program stopOnEntry).map fun _ _ hdone => hdone.2

end Session

end BytecodeDebugger
