import BytecodeDebugger.Proofs.Engine.AutoSteps
import BytecodeDebugger.Proofs.Session.Notices
import BytecodeDebugger.Proofs.Session.Undisturbed

/-!
# When automatic steps are made

A stop that is announced while steps are automatic puts off a step. The tasks that were put off are
never taken back, and several steps can be put off at a time; what tells them apart is the count of
commands that each of them carries. The `history` of a session lists its moments: the beginning of
every operation, and every task that a poll takes off the list. The invariant `OnSchedule` relates it
to the list of tasks: a step that is not void belongs to the stop announced last, and it is on the
list as long as it is owed.

Main statement: `Session.auto_steps_timed`, for every interpreter.
-/

namespace BytecodeDebugger

open Engine (Spares)

/-- **A moment of a session** at which something is done. -/
inductive Moment (σ : Type) where
  | begins (s : Session σ) (op : Operation)
  /-- the session does not list the task any more -/
  | runs (s : Session σ) (task : TimedTask)

section

variable {σ : Type} (I : Interpreter σ)

namespace Moment

/-- No command is given, no effective pause included, and no task is carried out. -/
def Idle : Moment σ → Prop
  | .begins s op => op.directs = false ∧ (op = .pause → s.engine.status ≠ .running)
  | .runs s task => s.runTask I task = .ok s

/-- A timer makes a step. -/
def Steps : Moment σ → Prop
  | .runs s (.autoStep generation) => s.runTask I (.autoStep generation) = s.stepIn I
  | _ => False

/-- A stop is announced to the clients of this session. -/
def Announces (s : Session σ) (m : Moment σ) : Prop :=
  ∃ task location, m = .runs s task ∧ s.engine.Announces task location

/-- **What was announced last is the stop of a session**, and nothing was done since. -/
def LastAnnounced (past : List (Moment σ)) (s : Session σ) : Prop :=
  ∃ before m between, past = before ++ m :: between ∧ m.Announces s ∧ ∀ m ∈ between, m.Idle I

end Moment

namespace Session

/-- **The tasks that a poll does**, the last one also if it does not end. -/
def polled (now : Time) : Nat → Session σ → List (Moment σ)
  | 0, _ => []
  | budget + 1, s =>
    match s.engine.timers.popDue now with
    | none => []
    | some (task, timers) =>
      .runs (s.setEngine { s.engine with timers }) task ::
        match (s.setEngine { s.engine with timers }).runTask I task with
        | .ok s => polled now budget s
        | .error _ => []

/-- The moments within an operation. -/
def within (s : Session σ) : Operation → List (Moment σ)
  | .poll budget => s.polled I s.engine.clock budget
  | _ => []

/-- **The history of a session** to which operations are done, up to the first that does not end. -/
def history (s : Session σ) : List Operation → List (Moment σ)
  | [] => []
  | op :: ops => .begins s op :: s.within I op ++
      match s.perform I op with
      | .ok s => s.history ops
      | .error _ => []

end Session

end

variable {σ : Type} {I : Interpreter σ} {past : List (Moment σ)} {s s' : Session σ}

/-! ### Commands -/

namespace Session

/-- What can be said after a command: no step is put off, and the program is not suspended. -/
structure Unscheduled (s : Session σ) : Prop where
  void : s.engine.Void
  suspended : s.engine.status = .suspended → s.engine.stepping.auto = false

theorem unscheduled_resumeThread (hvoid : s.engine.Void) (hs' : s.resumeThread I = .ok s') :
    s'.Unscheduled := by
  have hspares := (served_resumeThread hs').spares
  refine ⟨(hvoid.transition .resuming {}).spared hspares, fun hs => ?_⟩
  have hresuming := s.engine.status_resuming.symm.trans (hspares.suspended.mp hs)
  cases hresuming

theorem unscheduled_command (h : s.engine.Timely) (f : Stepping → Stepping)
    (hs' : (s.command f).resumeThread I = .ok s') : s'.Unscheduled :=
  unscheduled_resumeThread (h.void (f s.engine.stepping)) hs'

theorem unscheduled_resume (h : s.engine.Timely) (hs' : s.resume I = .ok s') : s'.Unscheduled := by
  unfold resume at hs'
  cases hgo : (s.command Stepping.resume).resumeThread I with
  | error reason =>
    rw [hgo] at hs'
    cases hs'
  | ok s₁ =>
    rw [hgo] at hs'
    cases hs'
    have hgone := unscheduled_command h _ hgo
    exact ⟨hgone.void, hgone.suspended⟩

/-- **After a command no step is put off.** -/
theorem unscheduled_perform {op : Operation} (h : s.engine.Timely) (hop : op.directs = true)
    (hs' : s.perform I op = .ok s') : s'.Unscheduled := by
  cases op with
  | stepIn => exact unscheduled_command h _ hs'
  | stepOver => exact unscheduled_command h _ hs'
  | resume => exact unscheduled_resume h hs'
  | stepOut =>
    -- with no caller left this is a plain resumption
    unfold perform stepOut at hs'
    dsimp only at hs'
    split at hs'
    · exact unscheduled_command h _ hs'
    · exact unscheduled_resume h hs'
  | autoStep =>
    -- the command itself makes every step that was put off void
    have hvoid : (s.command Stepping.toggleAuto).engine.Void := h.void _
    rw [← Chronicle.outcome_perform] at hs'
    unfold Chronicle.perform at hs'
    dsimp only at hs'
    split at hs'
    · -- switched on, the automatic steps begin with one
      unfold Chronicle.stepIn at hs'
      rw [Chronicle.outcome_resumeThread] at hs'
      exact unscheduled_command hvoid.timely _ hs'
    · next hoff =>
      -- switched off, nothing is owed
      cases hs'
      exact ⟨hvoid, fun _ => Bool.eq_false_iff.mpr hoff⟩
  | submit | pause | toggleBreakpoint | toggleStops | setClock | poll | fileLoaded | takeUnsaved
  | reportUncaught | reportText => cases hop

/-- An effective pause makes all steps void, too. -/
theorem unscheduled_pause (h : s.engine.Timely) (hrunning : s.engine.status = .running) :
    (s.setEngine s.engine.pause).Unscheduled := by
  have hpause : s.engine.pause =
      { s.engine.beginCommand with stepping := s.engine.stepping.pause } := by
    unfold Engine.pause
    rw [if_pos hrunning]
  unfold setEngine
  rw [hpause]
  refine ⟨h.void _, fun hs => ?_⟩
  cases hrunning.symm.trans hs

/-- Whatever else is done, polls apart, spares the automatic steps. -/
theorem spares_perform {op : Operation} (hs' : s.perform I op = .ok s')
    (hop : op.directs = false) (hpause : op = .pause → s.engine.status ≠ .running)
    (hpoll : ∀ budget, op ≠ .poll budget) : s.engine.Spares s'.engine := by
  cases op with
  | stepIn | stepOver | stepOut | resume | autoStep => cases hop
  | poll budget => exact absurd rfl (hpoll budget)
  | submit call => exact (served_submit hs').spares
  | pause =>
    -- pausing changes the steps only of a program that runs
    cases hs'
    unfold setEngine Engine.pause
    rw [if_neg (hpause rfl)]
    exact .refl _
  | reportUncaught error =>
    cases hs'
    exact (s.engine.served_reportUncaught error).spares
  | reportText message =>
    cases hs'
    exact (s.engine.served_reportText message).spares
  | toggleBreakpoint file line =>
    rw [Session.eq_of_toggle hs']
    exact Engine.spares_toggledBreakpoint _ file line
  | fileLoaded jsonUrl path? fetch =>
    cases hs'
    exact Engine.spares_fileLoaded _ jsonUrl path? fetch
  | toggleStops | setClock | takeUnsaved =>
    cases hs'
    exact ⟨rfl, rfl, rfl, fun _ _ => .rfl, .rfl⟩

end Session

/-! ### The invariant -/

theorem Moment.LastAnnounced.idle {s₀ : Session σ} {m : Moment σ} (h : LastAnnounced I past s₀)
    (hm : m.Idle I) : LastAnnounced I (past ++ [m]) s₀ := by
  obtain ⟨before, told, between, rfl, htold, hidle⟩ := h
  refine ⟨before, told, between ++ [m], by simp, htold, fun m' hm' => ?_⟩
  rcases List.mem_append.mp hm' with hm' | hm'
  · exact hidle m' hm'
  · rw [List.mem_singleton.mp hm']
    exact hm

/-- **The list of tasks agrees with the history.** -/
structure OnSchedule (I : Interpreter σ) (past : List (Moment σ)) (s : Session σ) : Prop where
  timely : s.engine.Timely
  /-- a step that is not void belongs to the stop announced last -/
  announced : ∀ due, ⟨due, .autoStep s.engine.generation⟩ ∈ s.engine.timers →
    s.engine.status = .suspended ∧ ∃ s₀, Moment.LastAnnounced I past s₀ ∧
      due = s₀.engine.clock + s.engine.config.autoStepDelay
  owed : s.engine.status = .suspended → s.engine.stepping.auto = true →
    ∃ due, ⟨due, .autoStep s.engine.generation⟩ ∈ s.engine.timers

theorem Session.Unscheduled.onSchedule (h : s.Unscheduled) : OnSchedule I past s where
  timely := h.void.timely
  announced due hmem := absurd (h.void due _ hmem) (Nat.lt_irrefl _)
  owed hs hauto := by
    rw [h.suspended hs] at hauto
    cases hauto

namespace OnSchedule

open Session

theorem start (config : Config) (saved : SavedSession) (clock : Time) (vm : σ) :
    OnSchedule I [] ⟨.start config saved clock, vm⟩ :=
  Unscheduled.onSchedule ⟨fun _ _ hmem => absurd hmem List.not_mem_nil, fun hs => by cases hs⟩

/-- An idle moment keeps the invariant. -/
theorem idle (h : OnSchedule I past s) (hspares : s.engine.Spares s'.engine) {m : Moment σ}
    (hm : m.Idle I) : OnSchedule I (past ++ [m]) s' where
  timely := h.timely.spared hspares
  -- a step that is still put off was put off before, by the stop announced last
  announced due hmem := by
    rw [hspares.generation, hspares.steps] at hmem
    obtain ⟨hs, s₀, hlast, hdue⟩ := h.announced due hmem
    rw [hspares.config]
    exact ⟨hspares.suspended.mpr hs, s₀, hlast.idle hm, hdue⟩
  owed hs hauto := by
    rw [hspares.auto] at hauto
    obtain ⟨due, hmem⟩ := h.owed (hspares.suspended.mp hs) hauto
    rw [hspares.generation]
    exact ⟨due, (hspares.steps due _).mpr hmem⟩

/-- **Operations keep the invariant**; of a poll this is only its beginning. -/
theorem perform (h : OnSchedule I past s) {op : Operation} (hpoll : ∀ budget, op ≠ .poll budget)
    (hs' : s.perform I op = .ok s') : OnSchedule I (past ++ [.begins s op]) s' := by
  cases hop : op.directs with
  | true => exact (unscheduled_perform h.timely hop hs').onSchedule
  | false =>
    by_cases hpause : op = .pause ∧ s.engine.status = .running
    · obtain ⟨rfl, hrunning⟩ := hpause
      cases hs'
      exact (unscheduled_pause h.timely hrunning).onSchedule
    · have hignored : op = .pause → s.engine.status ≠ .running :=
        fun heq hrunning => hpause ⟨heq, hrunning⟩
      exact h.idle (spares_perform hs' hop hignored hpoll) ⟨hop, hignored⟩

/-! ### Tasks -/

variable {task : TimedTask} {timers : Timers} {now : Time}

/-- Taking a task off the list keeps the invariant, unless it is the step that is owed. -/
theorem popped (h : OnSchedule I past s) (hpop : s.engine.timers.popDue now = some (task, timers))
    (howed : task = .autoStep s.engine.generation → s.engine.status = .suspended →
      s.engine.stepping.auto = false) :
    OnSchedule I past (s.setEngine { s.engine with timers }) := by
  obtain ⟨due, -, -, rfl⟩ := Timers.popDue_eq_some hpop
  refine ⟨fun due' generation hmem => h.timely due' generation (List.mem_of_mem_erase hmem),
    fun due' hmem => h.announced due' (List.mem_of_mem_erase hmem), fun hs hauto => ?_⟩
  obtain ⟨due', hmem⟩ := h.owed hs hauto
  refine ⟨due', (List.mem_erase_of_ne fun heq => ?_).mpr hmem⟩
  have hmanual := howed (Timer.mk.inj heq).2.symm hs
  cases hauto.symm.trans hmanual

/-- **A stop that is announced** puts off a step if steps are automatic. -/
theorem announces (h : OnSchedule I past s) {task : TimedTask} {location : SourceLocation}
    (hnow : s.engine.Announces task location) :
    OnSchedule I (past ++ [.runs s task]) (s.enterSuspended I location) := by
  have hlast : Moment.LastAnnounced I (past ++ [.runs s task]) s :=
    ⟨past, _, [], rfl, ⟨task, location, rfl, hnow⟩, fun m hm => absurd hm List.not_mem_nil⟩
  -- the notice is an engine step, of which only the payload depends on the interpreter
  obtain ⟨payload, hland⟩ : ∃ payload, (s.enterSuspended I location).engine = s.engine.land payload :=
    ⟨_, rfl⟩
  have hkept : (s.engine.land payload).status = .suspended ∧
      (s.engine.land payload).generation = s.engine.generation ∧
      (s.engine.land payload).stepping = s.engine.stepping ∧
      (s.engine.land payload).config = s.engine.config := by
    rw [Engine.land_of_suspending hnow.2]
    exact ⟨rfl, rfl, rfl, rfl⟩
  obtain ⟨hstatus, hgeneration, hstepping, hconfig⟩ := hkept
  constructor
  · intro due generation hmem
    rw [hland] at hmem ⊢
    rw [hgeneration]
    rcases (Engine.mem_timers_land hnow.2 payload).mp hmem with hmem | ⟨-, -, rfl⟩
    · exact h.timely due generation hmem
    · exact Nat.le_refl _
  · -- a step that is put off now is either an old one or the one of this stop
    intro due hmem
    rw [hland, hgeneration] at hmem
    rw [hland, hconfig]
    refine ⟨hstatus, s, hlast, ?_⟩
    rcases (Engine.mem_timers_land hnow.2 payload).mp hmem with hmem | ⟨-, hdue, -⟩
    · -- a step of the present command would have been put off by an earlier stop
      cases hnow.2.symm.trans (h.announced due hmem).1
    · exact hdue
  · intro _ hauto
    rw [hland, hstepping] at hauto
    rw [hland, hgeneration]
    exact ⟨_, (Engine.mem_timers_land hnow.2 payload).mpr (.inr ⟨hauto, rfl, rfl⟩)⟩

/-- **A task keeps the invariant.** -/
theorem runs (h : OnSchedule I past s) (hpop : s.engine.timers.popDue now = some (task, timers))
    (hs' : (s.setEngine { s.engine with timers }).runTask I task = .ok s') :
    OnSchedule I (past ++ [.runs (s.setEngine { s.engine with timers }) task]) s' := by
  cases task with
  | enterSuspended epoch location =>
    have hpopped := h.popped hpop fun heq => by cases heq
    unfold runTask at hs'
    dsimp only at hs'
    split at hs'
    · next hnow =>
      cases hs'
      obtain ⟨rfl, hsuspending⟩ := hnow
      exact hpopped.announces ⟨rfl, hsuspending⟩
    · next hvoid =>
      cases hs'
      exact hpopped.idle (.refl _) (if_neg hvoid)
  | autoStep generation =>
    unfold runTask at hs'
    dsimp only at hs'
    split at hs'
    · have htimely : (s.setEngine { s.engine with timers }).engine.Timely := h.timely.popped hpop
      exact (unscheduled_command htimely _ hs').onSchedule
    · next hvoid =>
      cases hs'
      -- what was taken is no step that is still owed, since its generation is over
      refine (h.popped hpop fun heq hs => ?_).idle (.refl _) (if_neg hvoid)
      obtain rfl := TimedTask.autoStep.inj heq
      exact Bool.eq_false_iff.mpr fun hauto => hvoid ⟨hauto, rfl, hs⟩

end OnSchedule

/-! ### Steps that are made -/

namespace Session

/-- A step gives a command, so that it does something. -/
theorem stepIn_ne (s : Session σ) : s.stepIn I ≠ .ok s := by
  intro h
  have hgeneration := (served_resumeThread h).spares.generation
  obtain ⟨_, _, _, _, heq⟩ := (s.command Stepping.stepIn).engine.transition_eq .resuming {}
  rw [heq] at hgeneration
  exact absurd hgeneration (Nat.ne_of_lt (Nat.lt_succ_self _))

/-- **A step is due**: the program is suspended and steps are automatic, and nothing was done since
this was announced, which is long enough ago. -/
structure Due (I : Interpreter σ) (past : List (Moment σ)) (s : Session σ) : Prop where
  suspended : s.engine.status = .suspended
  auto : s.engine.stepping.auto = true
  announced : ∃ s₀, Moment.LastAnnounced I past s₀ ∧
    s₀.engine.clock + s.engine.config.autoStepDelay ≤ s.engine.clock

end Session

namespace Moment

/-- When a timer makes a step. -/
theorem steps_iff {generation : Nat} : (runs s (.autoStep generation)).Steps I ↔
    s.engine.stepping.auto = true ∧ generation = s.engine.generation ∧
      s.engine.status = .suspended := by
  constructor
  · intro hsteps
    by_contra hvoid
    exact s.stepIn_ne (hsteps.symm.trans (if_neg hvoid))
  · exact fun hdue => if_pos hdue

/-- A timer that makes a step is not idle. -/
theorem Steps.not_idle {m : Moment σ} (h : m.Steps I) : ¬ m.Idle I := by
  cases m with
  | begins s op => cases h
  | runs s task =>
    cases task with
    | enterSuspended epoch location => cases h
    | autoStep generation => exact fun hidle => s.stepIn_ne (h.symm.trans hidle)

/-- **Every step that is made is due.** -/
def AllDue (I : Interpreter σ) (past : List (Moment σ)) : List (Moment σ) → Prop
  | [] => True
  | m :: h => (∀ s task, m = .runs s task → m.Steps I → s.Due I past) ∧ AllDue I (past ++ [m]) h

theorem AllDue.append {h h' : List (Moment σ)} (hfirst : AllDue I past h)
    (hrest : AllDue I (past ++ h) h') : AllDue I past (h ++ h') := by
  induction h generalizing past with
  | nil =>
    rw [List.append_nil] at hrest
    exact hrest
  | cons m h ih =>
    refine ⟨hfirst.1, ih hfirst.2 ?_⟩
    rw [List.append_assoc]
    exact hrest

theorem AllDue.due {before future : List (Moment σ)} {task : TimedTask}
    (h : AllDue I past (before ++ .runs s task :: future)) (hsteps : (runs s task).Steps I) :
    s.Due I (past ++ before) := by
  induction before generalizing past with
  | nil =>
    rw [List.append_nil]
    exact h.1 s task rfl hsteps
  | cons m before ih =>
    have hrest := ih h.2
    rw [List.append_assoc] at hrest
    exact hrest

end Moment

open Moment (AllDue)

namespace OnSchedule

open Session

variable {task : TimedTask} {timers : Timers}

/-- A timer that makes a step is due. -/
theorem due (h : OnSchedule I past s)
    (hpop : s.engine.timers.popDue s.engine.clock = some (task, timers))
    (hsteps : (Moment.runs (s.setEngine { s.engine with timers }) task).Steps I) :
    (s.setEngine { s.engine with timers }).Due I past := by
  cases task with
  | enterSuspended epoch location => cases hsteps
  | autoStep generation =>
    obtain ⟨hauto, rfl, hs⟩ := Moment.steps_iff.mp hsteps
    obtain ⟨due, hmem, hdue, -⟩ := Timers.popDue_eq_some hpop
    obtain ⟨-, s₀, hlast, rfl⟩ := h.announced due hmem
    exact ⟨hs, hauto, s₀, hlast, hdue⟩

end OnSchedule

/-- No task of a poll sets the clock, or the configuration. -/
theorem Session.kept_runTask {task : TimedTask} {timers : Timers}
    (hpop : s.engine.timers.popDue s.engine.clock = some (task, timers))
    (hs' : (s.setEngine { s.engine with timers }).runTask I task = .ok s') :
    s'.engine.clock = s.engine.clock ∧ s'.engine.config = s.engine.config := by
  rw [← Chronicle.outcome_runTask] at hs'
  have hevolves : Engine.Evolves Engine.Still s.engine s'.engine :=
    (Chronicle.follows_runTask I s hpop).evolves hs'
  exact ⟨hevolves.clock, hevolves.config⟩

namespace OnSchedule

open Session

/-- **A poll makes the steps that are due**, and keeps the invariant. -/
theorem polls (h : OnSchedule I past s) {now : Time} (hnow : s.engine.clock = now) (budget : Nat) :
    AllDue I past (s.polled I now budget) ∧
      ∀ s', s.pollAt I now budget = .ok s' → OnSchedule I (past ++ s.polled I now budget) s' := by
  -- over the tasks that one poll does, each behind those done before it
  induction budget generalizing past s with
  | zero => exact ⟨trivial, fun s' hs' => by cases hs'⟩
  | succ budget ih =>
    unfold polled pollAt
    cases hpop : s.engine.timers.popDue now with
    | none =>
      -- nothing is due: the schedule is as it was
      refine ⟨trivial, fun s' hs' => ?_⟩
      cases hs'
      rw [List.append_nil]
      exact h
    | some p =>
      obtain ⟨task, timers⟩ := p
      subst hnow
      dsimp only
      -- a step among the due tasks is one that the last announcement put off
      have hdue : ∀ s₁ task₁, Moment.runs (s.setEngine { s.engine with timers }) task =
          .runs s₁ task₁ → (Moment.runs (s.setEngine { s.engine with timers }) task).Steps I →
            s₁.Due I past := by
        rintro _ _ ⟨⟩ hsteps
        exact h.due hpop hsteps
      cases htask : (s.setEngine { s.engine with timers }).runTask I task with
      | error reason => exact ⟨⟨hdue, trivial⟩, fun s' hs' => by cases hs'⟩
      | ok s₁ =>
        obtain ⟨hrest, hend⟩ := ih (h.runs hpop htask) (kept_runTask hpop htask).1
        refine ⟨⟨hdue, hrest⟩, fun s' hs' => ?_⟩
        have hschedule := hend s' hs'
        rw [List.append_assoc] at hschedule
        exact hschedule

/-- **Operations make the steps that are due**, and keep the invariant. -/
theorem performs (h : OnSchedule I past s) (ops : List Operation) :
    AllDue I past (s.history I ops) ∧
      ∀ s', s.performAll I ops = .ok s' → OnSchedule I (past ++ s.history I ops) s' := by
  -- over the operations; only polls make automatic steps, so that the others are not split
  induction ops generalizing past s with
  | nil =>
    refine ⟨trivial, fun s' hs' => ?_⟩
    cases hs'
    rw [history, List.append_nil]
    exact h
  | cons op ops ih =>
    -- first the operation by itself, then those behind it
    have hop : AllDue I (past ++ [.begins s op]) (s.within I op) ∧
        ∀ s', s.perform I op = .ok s' →
          OnSchedule I (past ++ [.begins s op] ++ s.within I op) s' := by
      by_cases hpoll : ∃ budget, op = .poll budget
      · obtain ⟨budget, rfl⟩ := hpoll
        have hbegins : (Moment.begins s (.poll budget)).Idle I := ⟨rfl, fun heq => by cases heq⟩
        exact (h.idle (.refl _) hbegins).polls rfl budget
      · have hother : ∀ budget, op ≠ .poll budget := fun budget heq => hpoll ⟨budget, heq⟩
        have hwithin : s.within I op = [] := by
          cases op with
          | poll budget => exact absurd rfl (hother budget)
          | _ => rfl
        rw [hwithin, List.append_nil]
        exact ⟨trivial, fun s' hs' => h.perform hother hs'⟩
    obtain ⟨hdue, hend⟩ := hop
    have hbegins : ∀ s₁ task, Moment.begins s op = .runs s₁ task → (Moment.begins s op).Steps I →
        s₁.Due I past := fun s₁ task heq => by cases heq
    unfold history performAll
    cases hperform : s.perform I op with
    | error reason =>
      -- the operation stops, and nothing behind it happens
      refine ⟨⟨hbegins, hdue.append trivial⟩, fun s' hs' => by cases hs'⟩
    | ok s₁ =>
      obtain ⟨hdue', hend'⟩ := ih (hend s₁ hperform)
      refine ⟨⟨hbegins, hdue.append hdue'⟩, fun s' hs' => ?_⟩
      have hschedule := hend' s' hs'
      simp only [List.append_assoc, List.singleton_append] at hschedule
      exact hschedule

end OnSchedule

namespace Session

/-! ### Steps that are owed -/

/-- While the program is suspended, the step of the present command is the only task that does
something. -/
theorem runTask_idle (hs : s.engine.status = .suspended) {task : TimedTask}
    (hother : task ≠ .autoStep s.engine.generation) : s.runTask I task = .ok s := by
  cases task with
  | enterSuspended epoch location =>
    refine if_neg fun hnow => ?_
    cases hs.symm.trans hnow.2
  | autoStep generation =>
    refine if_neg fun hnow => hother ?_
    rw [hnow.2.1]

/-- **A poll makes the step that is owed**, and does nothing before it. -/
theorem polled_steps {now due : Time} {budget : Nat} (hs : s.engine.status = .suspended)
    (hauto : s.engine.stepping.auto = true)
    (hmem : ⟨due, .autoStep s.engine.generation⟩ ∈ s.engine.timers) (hdue : due ≤ now)
    (henough : s.engine.timers.length ≤ budget ∨ ∃ s', s.pollAt I now budget = .ok s') :
    ∃ waits s₁ task rest, s.polled I now budget = waits ++ .runs s₁ task :: rest ∧
      (∀ m ∈ waits, m.Idle I) ∧ (Moment.runs s₁ task).Steps I := by
  -- tasks that are no step of the present command leave the engine as it is, up to the step
  induction budget generalizing s with
  | zero =>
    rcases henough with hlength | ⟨s', hs'⟩
    · rw [List.eq_nil_of_length_eq_zero (Nat.le_zero.mp hlength)] at hmem
      cases hmem
    · cases hs'
  | succ budget ih =>
    unfold polled
    unfold pollAt at henough
    cases hpop : s.engine.timers.popDue now with
    | none => exact absurd hdue (Nat.not_le_of_lt (Timers.popDue_eq_none hpop _ hmem))
    | some p =>
      obtain ⟨task, timers⟩ := p
      rw [hpop] at henough
      dsimp only at henough ⊢
      obtain ⟨due', hmem', -, htimers⟩ := Timers.popDue_eq_some hpop
      -- the session behind the timer is kept opaque while the cases are split
      generalize hpopped : s.setEngine { s.engine with timers } = popped at henough ⊢
      by_cases hstep : task = .autoStep s.engine.generation
      · -- a step of the present command is made
        subst hstep hpopped
        exact ⟨[], _, _, _, rfl, by simp, Moment.steps_iff.mpr ⟨hauto, rfl, hs⟩⟩
      · -- a void notice or a void step does nothing, and the step is still in the list behind it
        have hidle : popped.runTask I task = .ok popped := by
          refine runTask_idle ?_ ?_
          · rw [← hpopped]
            exact hs
          · rw [← hpopped]
            exact hstep
        have hrest : ∃ waits s₁ task rest, popped.polled I now budget =
            waits ++ .runs s₁ task :: rest ∧ (∀ m ∈ waits, m.Idle I) ∧
              (Moment.runs s₁ task).Steps I := by
          subst hpopped htimers
          refine ih hs hauto ((List.mem_erase_of_ne ?_).mpr hmem) ?_
          · exact fun heq => hstep (Timer.mk.inj heq).2.symm
          · refine henough.imp (fun hlength => ?_) fun hends => ?_
            · -- each task taken shortens the list, so that the budget stays enough
              have := List.length_erase_add_one hmem'
              change (s.engine.timers.erase _).length ≤ budget
              omega
            · rw [hidle] at hends
              exact hends
        obtain ⟨waits, s₁, task₁, rest, heq, hwaits, hsteps⟩ := hrest
        rw [hidle]
        dsimp only
        rw [heq]
        refine ⟨.runs popped task :: waits, s₁, task₁, rest, rfl, fun m hm => ?_, hsteps⟩
        rcases List.mem_cons.mp hm with rfl | hm
        · exact hidle
        · exact hwaits m hm

/-! ### At most one step -/

/-- No step is due now. -/
def Later (s : Session σ) : Prop :=
  ∀ due generation, ⟨due, .autoStep generation⟩ ∈ s.engine.timers → due ≤ s.engine.clock →
    generation < s.engine.generation

theorem Unscheduled.later (h : s.Unscheduled) : s.Later :=
  fun due generation hmem _ => h.void due generation hmem

/-- A step that is made leaves no step put off. -/
theorem unscheduled_of_steps {task : TimedTask} (h : s.engine.Timely)
    (hsteps : (Moment.runs s task).Steps I) (hs' : s.runTask I task = .ok s') :
    s'.Unscheduled := by
  cases task with
  | enterSuspended epoch location => cases hsteps
  | autoStep generation => exact unscheduled_command h _ (hsteps.symm.trans hs')

/-- A task that makes no step leaves none to be made now: if it announces a stop, it puts off a step
to a later time. -/
theorem Later.runTask {task : TimedTask} (h : s.Later) (hdelay : 0 < s.engine.config.autoStepDelay)
    (hidle : ¬ (Moment.runs s task).Steps I) (hs' : s.runTask I task = .ok s') : s'.Later := by
  cases task with
  | enterSuspended epoch location =>
    unfold Session.runTask at hs'
    dsimp only at hs'
    split at hs'
    · next hnow =>
      cases hs'
      intro due generation hmem hdue
      obtain ⟨payload, hland⟩ : ∃ payload,
          (s.enterSuspended I location).engine = s.engine.land payload := ⟨_, rfl⟩
      have hkept : (s.engine.land payload).clock = s.engine.clock ∧
          (s.engine.land payload).generation = s.engine.generation := by
        rw [Engine.land_of_suspending hnow.2]
        exact ⟨rfl, rfl⟩
      rw [hland] at hmem hdue ⊢
      rw [hkept.1] at hdue
      rw [hkept.2]
      -- the step that the notice puts off is due only after the delay, which is positive
      rcases (Engine.mem_timers_land hnow.2 payload).mp hmem with hmem | ⟨-, rfl, -⟩
      · exact h due generation hmem hdue
      · exact absurd hdue (Nat.not_le_of_lt (Nat.lt_add_of_pos_right hdelay))
    · cases hs'
      exact h
  | autoStep generation =>
    have hvoid : s.runTask I (.autoStep generation) = .ok s :=
      if_neg fun hnow => hidle (Moment.steps_iff.mpr hnow)
    rw [hvoid] at hs'
    cases hs'
    exact h

/-- When no step is due now, the poll makes none. -/
theorem Later.polled {now : Time} (h : s.Later) (hnow : s.engine.clock = now)
    (hdelay : 0 < s.engine.config.autoStepDelay) (budget : Nat) :
    ∀ m ∈ s.polled I now budget, ¬ m.Steps I := by
  -- the clock stands still within a poll, so what is put off on the way is not due in it
  induction budget generalizing s with
  | zero => exact fun m hm => absurd hm List.not_mem_nil
  | succ budget ih =>
    unfold Session.polled
    cases hpop : s.engine.timers.popDue now with
    | none => exact fun m hm => absurd hm List.not_mem_nil
    | some p =>
      obtain ⟨task, timers⟩ := p
      subst hnow
      obtain ⟨due, hmem, hdue, htimers⟩ := Timers.popDue_eq_some hpop
      -- what is due was put off earlier, for a command that is over
      have hidle : ¬ (Moment.runs (s.setEngine { s.engine with timers }) task).Steps I := by
        cases task with
        | enterSuspended epoch location => exact id
        | autoStep generation =>
          intro hsteps
          obtain ⟨-, rfl, -⟩ := Moment.steps_iff.mp hsteps
          exact absurd (h due _ hmem hdue) (Nat.lt_irrefl _)
      have hpopped : (s.setEngine { s.engine with timers }).Later := by
        rw [htimers]
        exact fun due' generation hmem' => h due' generation (List.mem_of_mem_erase hmem')
      dsimp only
      intro m hm
      rcases List.mem_cons.mp hm with rfl | hm
      · exact hidle
      · cases htask : (s.setEngine { s.engine with timers }).runTask I task with
        | error reason =>
          rw [htask] at hm
          cases hm
        | ok s₁ =>
          rw [htask] at hm
          obtain ⟨hclock, hconfig⟩ := kept_runTask hpop htask
          rw [← hconfig] at hdelay
          exact ih (hpopped.runTask (hconfig ▸ hdelay) hidle htask) hclock hdelay m hm

/-- **A poll makes one step at most**, unless there is no delay. -/
theorem pairwise_polled {past : List (Moment σ)} {now : Time} (h : OnSchedule I past s)
    (hnow : s.engine.clock = now) (hdelay : 0 < s.engine.config.autoStepDelay) (budget : Nat) :
    (s.polled I now budget).Pairwise fun m m' => ¬ (m.Steps I ∧ m'.Steps I) := by
  induction budget generalizing past s with
  | zero => exact .nil
  | succ budget ih =>
    unfold Session.polled
    cases hpop : s.engine.timers.popDue now with
    | none => exact .nil
    | some p =>
      obtain ⟨task, timers⟩ := p
      subst hnow
      dsimp only
      cases htask : (s.setEngine { s.engine with timers }).runTask I task with
      | error reason => exact List.pairwise_singleton _ _
      | ok s₁ =>
        obtain ⟨hclock, hconfig⟩ := kept_runTask hpop htask
        rw [← hconfig] at hdelay
        refine .cons (fun m hm hboth => ?_) (ih (h.runs hpop htask) hclock hdelay)
        -- once a step was made, all that were put off are void
        have htimely : (s.setEngine { s.engine with timers }).engine.Timely := h.timely.popped hpop
        have hunscheduled := unscheduled_of_steps htimely hboth.1 htask
        exact hunscheduled.later.polled hclock hdelay budget m hm hboth.2

/-! ### The theorem -/

/-- Between a step and the stop announced last there is nothing, so that a step before it was made
before the stop was announced. -/
theorem announced_between {s₀ : Session σ} {m : Moment σ} {between : List (Moment σ)}
    (h : Moment.LastAnnounced I (past ++ m :: between) s₀) (hsteps : m.Steps I) :
    ∃ m₀ ∈ between, m₀.Announces s₀ := by
  obtain ⟨before, told, idle, heq, htold, hidle⟩ := h
  -- a step is no announcement
  have hne : m ≠ told := by
    rintro rfl
    obtain ⟨task, location, rfl, hnow⟩ := htold
    rw [hnow.1] at hsteps
    cases hsteps
  rcases List.append_eq_append_iff.mp heq with ⟨rest, -, hrest⟩ | ⟨rest, -, hrest⟩
  · -- the stop was announced after the step
    cases rest with
    | nil => exact absurd (List.cons.inj hrest).1 hne
    | cons m' rest =>
      obtain ⟨rfl, rfl⟩ := List.cons.inj hrest
      exact ⟨told, List.mem_append_right _ List.mem_cons_self, htold⟩
  · cases rest with
    | nil => exact absurd (List.cons.inj hrest).1.symm hne
    | cons m' rest =>
      obtain ⟨rfl, rfl⟩ := List.cons.inj hrest
      exact absurd (hidle m (List.mem_append_right _ List.mem_cons_self)) hsteps.not_idle

/-- **Automatic steps are made when they should be**, for every interpreter, whatever is done to a new
session and wherever its clock is set. A timer makes a step only if the program is suspended, steps
are automatic, and since the clients were told of this stop, at least the delay ago, nothing was done;
between two steps there is another stop. Conversely, while the program is suspended and steps are
automatic, a poll that comes the delay after the stop was announced, or later, makes the step before
it does anything else, however many tasks are on the list that mean nothing any more, and a poll that
ends leaves no such step. And if there is a delay, a poll makes one step at most. -/
theorem auto_steps_timed (I : Interpreter σ) (config : Config) (saved : SavedSession) (clock : Time)
    (vm : σ) (ops : List Operation) :
    (∀ past s task future,
      history I ⟨.start config saved clock, vm⟩ ops = past ++ .runs s task :: future →
      (Moment.runs s task).Steps I → s.Due I past) ∧
    (∀ past m between m' future,
      history I ⟨.start config saved clock, vm⟩ ops = past ++ m :: (between ++ m' :: future) →
      m.Steps I → m'.Steps I → ∃ s₀, ∃ m₀ ∈ between, m₀.Announces s₀) ∧
    ∀ s, performAll I ⟨.start config saved clock, vm⟩ ops = .ok s →
      (s.engine.status = .suspended → s.engine.stepping.auto = true →
        ∃ s₀, Moment.LastAnnounced I (history I ⟨.start config saved clock, vm⟩ ops) s₀ ∧
          (∀ budget, s₀.engine.clock + s.engine.config.autoStepDelay ≤ s.engine.clock →
            (s.engine.timers.length ≤ budget ∨ ∃ s', s.poll I budget = .ok s') →
            ∃ waits s₁ task rest,
              s.polled I s.engine.clock budget = waits ++ .runs s₁ task :: rest ∧
                (∀ m ∈ waits, m.Idle I) ∧ (Moment.runs s₁ task).Steps I) ∧
          ∀ before budget, ops = before ++ [.poll budget] →
            s.engine.clock < s₀.engine.clock + s.engine.config.autoStepDelay) ∧
      (0 < s.engine.config.autoStepDelay → ∀ budget,
        (s.polled I s.engine.clock budget).Pairwise fun m m' => ¬ (m.Steps I ∧ m'.Steps I)) := by
  -- the schedule holds at the start, and is carried through the whole history
  obtain ⟨hdue, hend⟩ := (OnSchedule.start (I := I) config saved clock vm).performs ops
  simp only [List.nil_append] at hend
  have hstep : ∀ past s task future,
      history I ⟨.start config saved clock, vm⟩ ops = past ++ .runs s task :: future →
      (Moment.runs s task).Steps I → s.Due I past := by
    intro past s task future heq hsteps
    rw [heq] at hdue
    exact hdue.due hsteps
  refine ⟨hstep, ?_, fun s hs => ⟨fun hsuspended hauto => ?_, fun hdelay budget => ?_⟩⟩
  · -- the second step is due to an announcement, which the first one cannot precede
    intro past m between m' future heq hsteps hsteps'
    cases m' with
    | begins s op => cases hsteps'
    | runs s task =>
      rw [← List.cons_append, ← List.append_assoc] at heq
      obtain ⟨s₀, hlast, -⟩ := (hstep _ s task future heq hsteps').announced
      obtain ⟨m₀, hm₀, htold⟩ := announced_between hlast hsteps
      exact ⟨s₀, m₀, hm₀, htold⟩
  · obtain ⟨due, hmem⟩ := (hend s hs).owed hsuspended hauto
    obtain ⟨-, s₀, hlast, rfl⟩ := (hend s hs).announced due hmem
    refine ⟨s₀, hlast, fun budget hnow henough => ?_, ?_⟩
    · exact polled_steps hsuspended hauto hmem hnow henough
    · -- a poll takes all that is due, so that a step that is still put off lies ahead
      rintro before budget rfl
      obtain ⟨s₁, -, hlast⟩ := performAll_concat.mp hs
      exact Timers.popDue_eq_none (popDue_poll hlast) _ hmem
  · exact pairwise_polled (hend s hs) rfl hdelay budget

/-- A stop on the second line, half a second after which a step is made. -/
theorem step_after_delay :
    (∃ past s task future, history Player.interpreter ⟨.start {} {} 0, twoLines⟩
        [.pause, .submit ⟨.nil, []⟩, .poll 2, .autoStep, .poll 2, .setClock 500000000, .poll 2] =
          past ++ .runs s task :: future ∧
      (Moment.runs s task).Steps Player.interpreter ∧ s.Due Player.interpreter past) ∧
    ∃ s s₀, performAll Player.interpreter ⟨.start {} {} 0, twoLines⟩
        [.pause, .submit ⟨.nil, []⟩, .poll 2, .autoStep, .poll 2] = .ok s ∧
      Moment.LastAnnounced Player.interpreter (history Player.interpreter ⟨.start {} {} 0, twoLines⟩
        [.pause, .submit ⟨.nil, []⟩, .poll 2, .autoStep, .poll 2]) s₀ ∧
      s.engine.clock < s₀.engine.clock + s.engine.config.autoStepDelay := by
  constructor
  · obtain ⟨hsteps, -, -⟩ := auto_steps_timed Player.interpreter {} {} 0 twoLines
      [.pause, .submit ⟨.nil, []⟩, .poll 2, .autoStep, .poll 2, .setClock 500000000, .poll 2]
    -- which of the moments are steps
    have hhistory : (history Player.interpreter ⟨.start {} {} 0, twoLines⟩
        [.pause, .submit ⟨.nil, []⟩, .poll 2, .autoStep, .poll 2, .setClock 500000000, .poll 2]).map
          (fun m => match m with
            | .runs s (.autoStep generation) => decide (s.engine.stepping.auto = true ∧
                generation = s.engine.generation ∧ s.engine.status = .suspended)
            | _ => false) = List.replicate 9 false ++ true :: [] := by
      decide +kernel
    obtain ⟨past, rest, hsplit, -, hrest⟩ := List.map_eq_append_iff.mp hhistory
    obtain ⟨m, future, rfl, hm, -⟩ := List.map_eq_cons_iff.mp hrest
    cases m with
    | begins s op => cases hm
    | runs s task =>
      cases task with
      | enterSuspended epoch location => cases hm
      | autoStep generation =>
        have hstep : (Moment.runs s (.autoStep generation)).Steps Player.interpreter :=
          Moment.steps_iff.mpr (of_decide_eq_true hm)
        exact ⟨past, s, _, future, hsplit, hstep, hsteps past s _ future hsplit hstep⟩
  · obtain ⟨-, -, hends⟩ := auto_steps_timed Player.interpreter {} {} 0 twoLines
      ([.pause, .submit ⟨.nil, []⟩, .poll 2, .autoStep] ++ [.poll 2])
    have hruns : (performAll Player.interpreter ⟨.start {} {} 0, twoLines⟩
        [.pause, .submit ⟨.nil, []⟩, .poll 2, .autoStep, .poll 2]).map
          (fun s => (s.engine.status, s.engine.stepping.auto)) = .ok (.suspended, true) := by
      decide +kernel
    obtain ⟨s, hs, hstands⟩ := Attended.exists_of_map_eq_ok hruns
    obtain ⟨hsuspended, hauto⟩ := Prod.mk.inj hstands
    obtain ⟨s₀, hlast, -, hlater⟩ := (hends s hs).1 hsuspended hauto
    exact ⟨s, s₀, hs, hlast, hlater _ 2 rfl⟩

end Session

end BytecodeDebugger
