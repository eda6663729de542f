import BytecodeDebugger.Proofs.Session.Polling

/-!
# A program that is debugged makes progress

The three sides of progress, over everything that can be done to a new session. The instruction at
which a program stopped is the next one that runs, whatever was set or submitted or reported
meanwhile. Therefore a call cannot stop more often than it executes instructions, and a poll that
steps by itself comes to an end.

Main statement:

* `Session.progress_made`.
-/

namespace BytecodeDebugger

/-- **A program that is debugged makes progress.** Take any machine without frames, and drive a new
session over it in whatever way, with breakpoints, polls, reports of errors and calls of the host.

Every stop is followed by the same instruction in the same frame, which is not held up again; and
whenever the program stands still, also in the middle of a poll, it stopped at its last visit, whose
instruction is the first to run on the next command that lets the program go on, and on an automatic
step that fires. The budget of that command only has to be enough to take the parked frames back.

At every moment, the call started last has stopped at most as often as it executes instructions
without a debugger, made after the calls before it; if it ends there, that is their number.

And when the calls submitted end without a debugger, made one after another, a poll ends as well,
whatever the delay between automatic steps, with any budgets from some number on. -/
theorem Session.progress_made (fuel : Nat) (config : Config) (saved : SavedSession) (clock : Time)
    (vm : Machine) (hvm : vm.frames = .empty) :
    (∀ deeds past v u future,
      visited (Chronicle.undertakeAll fuel ⟨.start config saved clock, vm⟩ deeds).happenings =
        past ++ v :: u :: future → v.Held → u.site = v.site ∧ ¬u.Held) ∧
    (∀ deeds s₀ count s, Session.undertakeAll fuel ⟨.start config saved clock, vm⟩ deeds = .ok s₀ →
      s₀.runDue (Machine.interpreter fuel) s₀.engine.clock count = .ok s →
      s.engine.status ≠ .running →
      ∃ past v, visited
          ((Chronicle.undertakeAll fuel ⟨.start config saved clock, vm⟩ deeds).happenings ++
            (Chronicle.runDue (Machine.interpreter fuel) s₀.engine.clock count s₀).happenings) =
          past ++ [v] ∧ v.Held ∧
        ∀ fuel', s.engine.resumeStack.length ≤ fuel' →
          (∀ op : Operation, op.Reenters s.engine →
            v.RunsFirst (Chronicle.perform (Machine.interpreter fuel') s op).happenings) ∧
          ∀ generation, s.engine.stepping.auto = true → generation = s.engine.generation →
            s.engine.status = .suspended → v.RunsFirst
              (Chronicle.runTask (Machine.interpreter fuel') s (.autoStep generation)).happenings) ∧
    (∀ ops before c during after,
      (Chronicle.performAll (Machine.interpreter fuel)
          ⟨.start config saved clock, vm⟩ ops).happenings = before ++ .started c :: during ++ after →
      startedCalls during = [] →
      ∃ k results m, Machine.callAll k (startedCalls before) vm = .ok (results, m) ∧
        (∃ k, stopCount (visited during) ≤ (Machine.call k c.function c.args m).instructions) ∧
        ∀ k x, (Machine.call k c.function c.args m).detach = .ok x →
          stopCount (visited during) ≤ (Machine.call k c.function c.args m).instructions) ∧
    ∀ ops s k y, Session.performAll (Machine.interpreter fuel) ⟨.start config saved clock, vm⟩ ops =
        .ok s →
      Machine.callAll k (ops.filterMap Operation.submitted?) vm = .ok y →
      ∃ n, ∀ fuel' ≥ n, ∀ budget ≥ n, ∃ s', s.poll (Machine.interpreter fuel') budget = .ok s' := by
  have hresumes := fun deeds => Resumes.undertakeAll fuel config saved clock hvm deeds
  have hpaced : AtEase (Paced vm) [] ⟨.start config saved clock, vm⟩ :=
    ⟨⟨fun before c during h => by simp at h,
      .free (.fresh config saved clock hvm) ⟨0, [], vm, rfl, rfl⟩⟩, fun _ => rfl⟩
  have hpace := fun ops => (Paced.steady fuel).performAll hpaced ops fun _ _ _ => trivial
  refine ⟨?_, ?_, ?_, ?_⟩
  · intro deeds past v u future hvisits hheld
    have hchain := (hresumes deeds).always _ (List.prefix_refl _)
    rw [List.nil_append, hvisits] at hchain
    exact List.isChain_iff_forall_rel_of_append_cons_cons.mp hchain rfl hheld
  · intro deeds s₀ count s hs₀ hs hpaused
    exact ((Resumes.steady fuel).due (hresumes deeds) hs₀ hs).next hpaused
  · intro ops before c during after hhappenings hlatest
    have hmoment := (hpace ops).always _ ⟨after, hhappenings.symm⟩
    rw [List.nil_append] at hmoment
    exact hmoment.stops_le hlatest
  · intro ops s k y hs hcalls
    have hfresh : InOrder [] := ⟨List.prefix_refl _, fun past e question h => by simp at h⟩
    have hmeets := (Accounted.steady (Machine.interpreter fuel)).performAll
      (h := []) (s := ⟨.start config saved clock, vm⟩) ⟨⟨hfresh, rfl⟩, fun _ => rfl⟩ ops
      fun _ _ _ => trivial
    rw [← Chronicle.outcome_performAll] at hs
    have haccounted := (hmeets.ends s hs).holds.2
    have hsubmitted := (Chronicle.submitted_performAll _ _ ops).2 s hs
    have hpaced := ((hpace ops).ends s hs).holds
    rw [List.nil_append] at haccounted hpaced
    -- the calls submitted are those that were started and those that wait
    rw [← hsubmitted, haccounted] at hcalls
    obtain ⟨room, work, hroom, hremaining⟩ := hpaced.remaining hcalls
    refine ⟨max room (s.chores work + 1), fun fuel' hfuel budget hbudget => ?_⟩
    exact hremaining.pollAt_ends hroom (by omega) s.engine.clock (by omega)

/-- A call that is stopped and then stepped automatically. -/
def steppedCall : List Operation := [.pause, .submit ⟨.function 0, [.function 1]⟩, .autoStep]

/-- Without any delay between the steps: the call stopped at an instruction that is the next to run;
it stops at three instructions in all, which is as many as it executes; and the poll that steps it
ends. -/
theorem Session.steps_to_the_end :
    ∃ (s : Session Machine) (v : Visit) (n : Nat),
      Session.performAll (Machine.interpreter 10) ⟨.start { autoStepDelayMs := 0 } {} 0, .relay⟩
        steppedCall = .ok s ∧
      s.engine.status = .suspending ∧ s.engine.stepping.auto = true ∧ v.Held ∧
      v.RunsFirst (Chronicle.perform (Machine.interpreter 10) s .stepIn).happenings ∧
      (∀ k x, (Machine.call k (.function 0) [.function 1] .relay).detach = .ok x →
        3 ≤ (Machine.call k (.function 0) [.function 1] .relay).instructions) ∧
      ∀ fuel ≥ n, ∀ budget ≥ n, ∃ s', s.poll (Machine.interpreter fuel) budget = .ok s' := by
  obtain ⟨-, hnext, hstops, hpolls⟩ :=
    Session.progress_made 10 { autoStepDelayMs := 0 } {} 0 .relay rfl
  have hstate : (Session.performAll (Machine.interpreter 10)
      ⟨.start { autoStepDelayMs := 0 } {} 0, .relay⟩ steppedCall).map (fun s =>
        (s.engine.status, s.engine.stepping.auto, s.engine.resumeStack.length)) =
          .ok (.suspending, true, 2) := by
    decide +kernel
  obtain ⟨s, hs, hstate⟩ := Attended.exists_of_map_eq_ok hstate
  obtain ⟨hstatus, hstate⟩ := Prod.mk.inj hstate
  obtain ⟨hauto, hlength⟩ := Prod.mk.inj hstate
  have hpaused : s.engine.status ≠ .running := by
    rw [hstatus]
    decide
  -- the next instruction
  obtain ⟨past, v, -, hheld, hfirst⟩ :=
    hnext (steppedCall.map .operation) s 0 s hs rfl hpaused
  have hstep := (hfirst 10 (by rw [hlength]; decide)).1 .stepIn trivial
  -- the stops until the poll has ended
  obtain ⟨k, results, m, hcalls, -, hcount⟩ := hstops (steppedCall ++ [.poll 10])
    [.submitted ⟨.function 0, [.function 1]⟩] ⟨.function 0, [.function 1]⟩
    ((Chronicle.performAll (Machine.interpreter 10) ⟨.start { autoStepDelayMs := 0 } {} 0, .relay⟩
      (steppedCall ++ [.poll 10])).happenings.drop 2) [] rfl rfl
  have hthree : stopCount (visited ((Chronicle.performAll (Machine.interpreter 10)
      ⟨.start { autoStepDelayMs := 0 } {} 0, .relay⟩
      (steppedCall ++ [.poll 10])).happenings.drop 2)) = 3 := by
    decide +kernel
  rw [hthree] at hcount
  cases hcalls
  -- the poll
  have halone : (Machine.callAll 10 [⟨.function 0, [.function 1]⟩] .relay).map
      (fun x => x.1.length) = .ok 1 := by
    decide +kernel
  obtain ⟨y, halone, -⟩ := Attended.exists_of_map_eq_ok halone
  obtain ⟨n, hpoll⟩ := hpolls steppedCall s 10 y hs halone
  exact ⟨s, v, n, hs, hstatus, hauto, hheld, hstep, hcount, hpoll⟩

end BytecodeDebugger
