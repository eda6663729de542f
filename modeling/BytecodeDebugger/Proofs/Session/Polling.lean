import BytecodeDebugger.Proofs.Engine.Notices
import BytecodeDebugger.Proofs.Session.Pace

/-!
# Polls end

A poll does what is due, and what becomes due on the way. With automatic steps and no delay between
them it goes on by itself: a stop is announced, the announcement puts off a step, and the step runs to
the next stop. It ends because every step takes at least one turn of the program, so that it comes to
its end if the program does.

What is left of a program is measured in turns that it takes without a debugger
(`Session.Remaining`): those of the parked frames, and a budget for each of the calls that wait.

Main statements:

* `start_leaves`, `resumeThread_leaves` — how much is left when the program went on;
* `Session.Remaining.pollAt_ends` — a poll ends if what is left ends without a debugger;
* `Paced.remaining` — what is left ends without a debugger if the calls submitted do.
-/

namespace BytecodeDebugger

open Machine (Walks)

/-! ### What is left -/

/-- **What is left of a session ends without a debugger**, with so many turns at most: the parked
frames run to their end, and then the calls that wait, each within a budget. The frames parked and the
turns of their run are no more than `room`. -/
inductive Session.Remaining (budget room : Nat) (s : Session Machine) : Nat → Prop where
  | free (y : List RunResult × Machine) (rests : s.Resting [])
    (calls : Machine.callAll budget s.engine.waiting s.vm = .ok y) :
    Session.Remaining budget room s (budget * s.engine.waiting.length)
  | stopped (turns : Nat) (v : Visit) (callers : List FrameId) (x : RunResult × Machine)
    (y : List RunResult × Machine) (stops : s.Stopped callers v)
    (run : (Machine.run turns (v.site.frame :: callers) s.vm).detach = .ok x)
    (calls : Machine.callAll budget s.engine.waiting x.2 = .ok y)
    (fits : (v.site.frame :: callers).length + turns ≤ room) :
    Session.Remaining budget room s (turns + budget * s.engine.waiting.length)

/-- **What comes of going on**: so much is left at most, and a stop has put off one task. -/
structure Session.Leaves (budget room tasks bound : Nat) (s : Session Machine) : Prop where
  remains : ∃ work ≤ bound, s.Remaining budget room work
  timers : s.engine.timers.length ≤ tasks + if s.engine.status = .running then 0 else 1

namespace Session.Leaves

variable {budget room tasks bound : Nat} {s : Session Machine} (h : s.Leaves budget room tasks bound)

include h

theorem mono {bound' : Nat} (hle : bound ≤ bound') : s.Leaves budget room tasks bound' := by
  obtain ⟨work, hwork, hremaining⟩ := h.remains
  exact ⟨⟨work, Nat.le_trans hwork hle, hremaining⟩, h.timers⟩

/-- Counted from an earlier moment. -/
theorem later {tasks' : Nat} (hle : tasks ≤ tasks') : s.Leaves budget room tasks' bound :=
  ⟨h.remains, Nat.le_trans h.timers (Nat.add_le_add_right hle _)⟩

end Session.Leaves

section

variable {budget room fuel tasks work : Nat} {s s' : Session Machine} {call : DeferredCall}
  {waiting : List DeferredCall} {callers : List FrameId} {v : Visit}

/-- What is left of a run that walked up to a stop. -/
theorem Session.Stopped.leaves (h : s.Stopped callers v) {n i k : Nat} {stack : List FrameId}
    {m : Machine} {x : RunResult × Machine} {y : List RunResult × Machine}
    (hwalks : Walks n i stack m (v.site.frame :: callers) s.vm) (hruns : m.Runs .empty stack)
    (hne : stack ≠ []) (hrun : (Machine.run k stack m).detach = .ok x)
    (hcalls : Machine.callAll budget s.engine.waiting x.2 = .ok y) (hfits : stack.length + k ≤ room)
    (htimers : s.engine.timers.length = tasks + 1) :
    s.Leaves budget room tasks (k - n + budget * s.engine.waiting.length) := by
  -- the walk took its share of the turns, and the rest of them is left
  obtain ⟨turns, rfl, hrest⟩ := hwalks.rest hrun
  obtain ⟨-, -, -, hlength⟩ := hwalks.keeps hruns hne
  have hremaining : s.Remaining budget room _ :=
    .stopped turns v callers x y h hrest hcalls (by omega)
  refine ⟨⟨_, ?_, hremaining⟩, ?_⟩
  · rw [Nat.add_sub_cancel_left]
  · rw [if_neg h.paused]
    exact Nat.le_of_eq htimers

/-- What is left when nothing is parked: the calls that wait. -/
theorem Session.Resting.leaves (h : s.Resting []) {m : Machine} {y : List RunResult × Machine}
    (hsame : s.vm.untraced = m.untraced) (hcalls : Machine.callAll budget s.engine.waiting m = .ok y)
    (htimers : s.engine.timers.length = tasks) :
    s.Leaves budget room tasks (budget * s.engine.waiting.length) := by
  obtain ⟨m', hcalls', -⟩ := Machine.callAll_untraced hsame.symm hcalls
  exact ⟨⟨_, Nat.le_refl _, .free _ h hcalls'⟩, htimers ▸ Nat.le_add_right _ _⟩

/-! ### Going on -/

/-- **A call that is started** leaves less than its budget. -/
theorem start_leaves (hbudget : budget ≤ room) (hroom : room ≤ fuel) (h : s.Resting [])
    (hs : s.engine.status = .running) {y : List RunResult × Machine}
    (hcalls : Machine.callAll budget (call :: waiting) s.vm = .ok y) :
    ∃ s', (Chronicle.start (Machine.interpreter fuel) s call waiting).outcome = .ok s' ∧
      s'.engine.waiting = waiting ∧
      s'.Leaves budget room s.engine.timers.length (budget - 1 + budget * waiting.length) := by
  obtain ⟨r, m₁, results, hcall, hrest, -⟩ := Machine.callAll_cons.mp hcalls
  obtain ⟨s', hs'⟩ := start_finishes (Nat.le_trans hbudget hroom) h waiting hcall
  have hwaiting := Chronicle.waiting_start hs'
  refine ⟨s', hs', hwaiting, ?_⟩
  rw [← hwaiting] at hrest ⊢
  -- the call is held up on its way, or ends as it does alone
  cases start_reaches h hs hs' with
  | stopped n passed v callers _ stops way split unheld timers =>
    obtain ⟨closure, hcallable, hroomy, hwalks⟩ := way
    cases budget with
    | zero => cases hcall
    | succ budget =>
      rw [Machine.call_closure hcallable hroomy] at hcall
      have hruns := Machine.Runs.entered h.runs.bounded closure call.args
      rw [h.frames] at hruns
      have hfits : [s.vm.nextFrame].length + budget ≤ room := by
        rw [List.length_singleton, Nat.add_comm]
        exact hbudget
      refine (stops.leaves hwalks hruns (by simp) hcall hrest hfits timers).mono ?_
      exact Nat.add_le_add_right (Nat.sub_le budget n) _
  | free x₀ _ rests alone same unheld timers =>
    obtain ⟨k, halone⟩ := alone
    rw [Machine.detach_call_unique halone hcall] at same
    exact (rests.leaves same hrest timers).mono (Nat.le_add_left _ _)

/-- **The calls that wait** leave no more than their budgets. -/
theorem drainCalls_leaves (hbudget : budget ≤ room) (hroom : room ≤ fuel)
    {calls : List DeferredCall} (h : s.Resting []) (hw : s.engine.waiting = calls)
    {y : List RunResult × Machine} (hcalls : Machine.callAll budget calls s.vm = .ok y) :
    ∃ s', (Chronicle.drainCalls (Machine.interpreter fuel) s calls).outcome = .ok s' ∧
      s'.Leaves budget room s.engine.timers.length (budget * calls.length) := by
  -- over the queue, as far as it is worked off before something stops
  induction calls generalizing s y with
  | nil =>
    rw [← hw] at hcalls
    have hleaves : s.Leaves budget room _ _ := h.leaves rfl hcalls rfl
    rw [hw] at hleaves
    exact ⟨s, rfl, hleaves⟩
  | cons call calls ih =>
    have hs := h.running.mpr rfl
    obtain ⟨s₁, hstart, hwaiting, hleaves⟩ := start_leaves hbudget hroom h hs hcalls
    have hmore : budget - 1 + budget * calls.length ≤ budget * (call :: calls).length := by
      rw [List.length_cons, Nat.mul_succ]
      omega
    unfold Chronicle.drainCalls
    rw [if_pos hs, Chronicle.outcome_bind, hstart]
    by_cases hs₁ : s₁.engine.status = .running
    · -- the call came to its end, and the next one follows
      obtain ⟨⟨work, -, hremaining⟩, htimers⟩ := hleaves
      rw [if_pos hs₁] at htimers
      cases hremaining with
      | stopped turns v callers x y stops => exact absurd hs₁ stops.paused
      | free y₁ rests hrest =>
        rw [hwaiting] at hrest
        obtain ⟨s', hs', hleaves'⟩ := ih rests hwaiting hrest
        refine ⟨s', hs', (hleaves'.mono ?_).later htimers⟩
        rw [List.length_cons]
        exact Nat.mul_le_mul_left _ (Nat.le_succ _)
    · -- it stopped, and the others wait on
      have hwait := Chronicle.drainCalls_paused (Machine.interpreter fuel) hs₁ calls
      exact ⟨s₁, congrArg Chronicle.outcome hwait, hleaves.mono hmore⟩

/-- **A session that stopped goes on** by a turn at least. -/
theorem resumeThread_leaves (hbudget : budget ≤ room) (hroom : room ≤ fuel)
    (h : s.Stopped callers v) {turns : Nat} {x : RunResult × Machine} {y : List RunResult × Machine}
    (hrun : (Machine.run turns (v.site.frame :: callers) s.vm).detach = .ok x)
    (hcalls : Machine.callAll budget s.engine.waiting x.2 = .ok y)
    (hfits : (v.site.frame :: callers).length + turns ≤ room) :
    ∃ s', (Chronicle.resumeThread (Machine.interpreter fuel) s).outcome = .ok s' ∧
      s'.Leaves budget room s.engine.timers.length
        (turns - 1 + budget * s.engine.waiting.length) := by
  have hne : v.site.frame :: callers ≠ [] := by simp
  have hlength : (v.site.frame :: callers).length ≤ fuel := by omega
  obtain ⟨s₁, hreenter⟩ := reenter_finishes (by omega) hlength h.rests hne hrun
  have hwaiting := waiting_reenter h.rests hne hreenter
  unfold Chronicle.resumeThread
  rw [Chronicle.outcome_bind, hreenter]
  rw [← hwaiting] at hcalls ⊢
  cases (reenter_reaches h.rests hne hreenter).2 with
  | stopped n passed v' callers' _ stops way split unheld timers =>
    have hleaves := stops.leaves way h.rests.runs hne hrun hcalls hfits timers
    -- the instruction at which it stopped ran, and took a turn
    have hpassed := List.length_pos_iff.mpr (h.passed_ne_nil hlength split stops.held)
    have hturn : 1 ≤ n := Nat.le_trans hpassed way.instructions_le_turns
    have hwait := Chronicle.drainCalls_paused (Machine.interpreter fuel) stops.paused
    refine ⟨s₁, congrArg Chronicle.outcome (hwait _), hleaves.mono ?_⟩
    exact Nat.add_le_add_right (Nat.sub_le_sub_left hturn turns) _
  | free x₀ _ rests alone same unheld timers =>
    obtain ⟨k, halone⟩ := alone
    rw [Machine.detach_run_unique halone hrun] at same
    obtain ⟨m', hcalls', -⟩ := Machine.callAll_untraced same.symm hcalls
    obtain ⟨s', hs', hleaves⟩ := drainCalls_leaves hbudget hroom rests rfl hcalls'
    rw [timers] at hleaves
    exact ⟨s', hs', hleaves.mono (Nat.le_add_left _ _)⟩

end

/-! ### Polling -/

namespace Session

/-- Announcing a stop puts off one task at most. -/
theorem timers_enterSuspended {σ : Type} (I : Interpreter σ) (s : Session σ)
    (location : SourceLocation) :
    (s.enterSuspended I location).engine.timers.length ≤ s.engine.timers.length + 1 := by
  have hsame : ∀ payload, (s.engine.transition .suspended payload).timers = s.engine.timers := by
    intro payload
    obtain ⟨_, _, _, _, heq⟩ := s.engine.transition_eq .suspended payload
    rw [heq]
  unfold enterSuspended
  dsimp only
  split
  · exact Nat.le_of_eq (List.length_append.trans (congrArg (·.length + 1) (hsame _)))
  · exact Nat.le_succ_of_le (Nat.le_of_eq (congrArg List.length (hsame _)))

/-- **What is left for a poll to do**: the tasks that were put off, and for each turn that is left the
announcement of a stop and the step after it. -/
def chores (s : Session Machine) (work : Nat) : Nat :=
  s.engine.timers.length + 2 * work + if s.engine.status = .suspending then 1 else 0

namespace Remaining

variable {budget room fuel work : Nat} {s : Session Machine}

theorem of_engine (h : s.Remaining budget room work) {e : Engine}
    (hs : e.status = s.engine.status) (hp : e.parked = s.engine.parked)
    (hb : e.barriers = s.engine.barriers) (hw : e.waiting = s.engine.waiting) :
    (s.setEngine e).Remaining budget room work := by
  cases h with
  | free y rests calls =>
    rw [← hw] at calls ⊢
    exact .free y (rests.of_engine hs hp) calls
  | stopped turns v callers x y stops run calls fits =>
    rw [← hw] at calls ⊢
    exact .stopped turns v callers x y (stops.of_engine hs hp hb) run calls fits

theorem announced (h : s.Remaining budget room work) (I : Interpreter Machine)
    (location : SourceLocation) (hsuspending : s.engine.status = .suspending) :
    (s.enterSuspended I location).Remaining budget room work ∧
      (s.enterSuspended I location).engine.status = .suspended := by
  obtain ⟨payload, timers, heq⟩ := Session.Resting.enterSuspended_eq I hsuspending location
  cases h with
  | free y rests => exact absurd ((rests.running.mpr rfl).symm.trans hsuspending) (by decide)
  | stopped turns v callers x y stops run calls fits =>
    have hstops := stops.announced I location hsuspending
    rw [heq] at hstops ⊢
    exact ⟨.stopped turns v callers x y hstops run calls fits, rfl⟩

/-- **A task that is done** leaves no more to do than there was. -/
theorem runTask_leaves (hbudget : budget ≤ room) (hroom : room ≤ fuel)
    (h : s.Remaining budget room work) (task : TimedTask) :
    ∃ s' work', s.runTask (Machine.interpreter fuel) task = .ok s' ∧
      s'.Remaining budget room work' ∧ s'.chores work' ≤ s.chores work := by
  cases task with
  | enterSuspended epoch location =>
    unfold runTask
    dsimp only
    split
    · next hdue =>
      obtain ⟨hremaining, hstatus⟩ := h.announced (Machine.interpreter fuel) location hdue.2
      refine ⟨_, work, rfl, hremaining, ?_⟩
      have htimers := timers_enterSuspended (Machine.interpreter fuel) s location
      unfold chores
      rw [hstatus, hdue.2]
      simp only [reduceCtorEq, if_false, if_true]
      omega
    · exact ⟨s, work, rfl, h, Nat.le_refl _⟩
  | autoStep generation =>
    unfold runTask
    dsimp only
    split
    · next hdue =>
      obtain ⟨-, -, hsuspended⟩ := hdue
      cases h with
      | free y rests => exact absurd ((rests.running.mpr rfl).symm.trans hsuspended) (by decide)
      | stopped turns v callers x y stops run calls fits =>
        have hcommand : (s.command Stepping.stepIn).Stopped callers v := stops.of_engine rfl rfl rfl
        obtain ⟨s', hs', ⟨work', hwork, hremaining⟩, htimers⟩ :=
          resumeThread_leaves hbudget hroom hcommand run calls fits
        rw [Chronicle.outcome_resumeThread] at hs'
        refine ⟨s', work', hs', hremaining, ?_⟩
        -- a step takes a turn at least, which pays for the notice of the next stop
        have hturns : turns ≠ 0 := by
          rintro rfl
          cases run
        have htasks : (s.command Stepping.stepIn).engine.timers = s.engine.timers := rfl
        have hwaiting : (s.command Stepping.stepIn).engine.waiting = s.engine.waiting := rfl
        rw [htasks] at htimers
        rw [hwaiting] at hwork
        unfold chores
        rw [hsuspended]
        split at htimers <;> split <;> simp only [reduceCtorEq, if_false] <;> omega
    · exact ⟨s, work, rfl, h, Nat.le_refl _⟩

/-- **A poll ends** if what is left of the program ends without a debugger. -/
theorem pollAt_ends (hbudget : budget ≤ room) (hroom : room ≤ fuel)
    (h : s.Remaining budget room work) (now : Time) {tasks : Nat} (henough : s.chores work < tasks) :
    ∃ s', s.pollAt (Machine.interpreter fuel) now tasks = .ok s' := by
  -- over the budget of the poll: every task leaves fewer chores than there were
  induction tasks generalizing s work with
  | zero => exact absurd henough (Nat.not_lt_zero _)
  | succ tasks ih =>
    unfold pollAt
    cases hpop : s.engine.timers.popDue now with
    | none => exact ⟨s, rfl⟩
    | some p =>
      obtain ⟨task, timers⟩ := p
      obtain ⟨due, hmem, -, rfl⟩ := Timers.popDue_eq_some hpop
      -- the task is taken off, and what it puts off was counted
      have hpopped : (s.setEngine { s.engine with
          timers := s.engine.timers.erase ⟨due, task⟩ }).chores work + 1 = s.chores work := by
        have hlength := List.length_erase_add_one hmem
        unfold chores Session.setEngine
        dsimp only
        omega
      have hrest : (s.setEngine { s.engine with
          timers := s.engine.timers.erase ⟨due, task⟩ }).Remaining budget room work :=
        h.of_engine rfl rfl rfl rfl
      obtain ⟨s₁, work', hs₁, hremaining, hle⟩ := hrest.runTask_leaves hbudget hroom task
      obtain ⟨s', hs'⟩ := ih hremaining (by omega)
      refine ⟨s', ?_⟩
      change (runTask _ _ task).bind _ = _
      rw [hs₁]
      exact hs'

end Remaining

end Session

/-! ### Calls that end without a debugger -/

/-- **If the calls submitted end without a debugger**, so does what is left of them. -/
theorem Paced.remaining {start : Machine} {h : List Happening} {s : Session Machine}
    (hs : Paced start h s) {budget : Nat} {y : List RunResult × Machine}
    (hcalls : Machine.callAll budget (startedCalls h ++ s.engine.waiting) start = .ok y) :
    ∃ room work, budget ≤ room ∧ s.Remaining budget room work := by
  cases hs.stands with
  | free rests leads =>
    obtain ⟨results, m, results', hbefore, hrest⟩ := Machine.callAll_append hcalls
    obtain ⟨m', hrest', -⟩ := Machine.callAll_untraced (leads.unique hbefore) hrest
    exact ⟨budget, _, Nat.le_refl _, .free _ rests hrest'⟩
  | stopped v callers stops underway =>
    obtain ⟨before, c, during, m₀, n, i, split, latest, leads, bounded, entered, count⟩ := underway
    have hstarted : startedCalls h ++ s.engine.waiting =
        startedCalls before ++ c :: s.engine.waiting := by
      rw [split, startedCalls_append, List.append_assoc]
      change _ ++ c :: (startedCalls during ++ _) = _
      rw [latest, List.nil_append]
    rw [hstarted] at hcalls
    obtain ⟨results, m, results', hbefore, hrest⟩ := Machine.callAll_append hcalls
    obtain ⟨m', hrest', -⟩ := Machine.callAll_untraced (leads.unique hbefore) hrest
    obtain ⟨r, m₁, results'', hcall, hwaiting, -⟩ := Machine.callAll_cons.mp hrest'
    -- what the call still has to run is what it runs alone, less what it has run
    obtain ⟨turns, hturns⟩ := entered.rest hcall
    have hroom := Nat.le_max_right budget ((v.site.frame :: callers).length + turns)
    exact ⟨max budget ((v.site.frame :: callers).length + turns), _, Nat.le_max_left _ _,
      .stopped turns v callers _ _ stops hturns hwaiting hroom⟩

end BytecodeDebugger
