import BytecodeDebugger.Proofs.Session.Recovery

/-!
# Calls that fail

A call from the host that fails is reported like a run that entered parked frames again
(`Session.resumption_recovers`), but nothing of it is given up: what it parked stays parked, and a stop
that it began goes on. The engine is left running with nothing parked exactly when the call parked
nothing, as calls do that either stop or fail.

Main statement: `Session.failed_call_leaves`.
-/

namespace BytecodeDebugger

namespace Engine

variable {e e' : Engine}

/-- What is parked for a question. -/
def parks? : Engine × HookCall → Option Resumable
  | (e, .before site) => if e.shouldSuspend site then some (.call site.frame) else none
  | (_, .park entry) => some entry
  | _ => none

/-- Whether the answer to a question begins a stop. -/
def beginsStop : Engine × HookCall → Bool
  | (e, .before site) => e.shouldSuspend site
  | _ => false

/-- A stop begins with a frame that is parked. -/
theorem beginsStop_eq_false {q : Engine × HookCall} (h : parks? q = none) : beginsStop q = false := by
  obtain ⟨e, call⟩ := q
  cases call with
  | before site =>
    unfold parks? at h
    dsimp only at h
    split at h
    · cases h
    · next hstop => exact Bool.eq_false_iff.mpr hstop
  | after | park | takeResume | isResuming | raise => rfl

/-- **What an answer leaves parked**, while the program runs or has just stopped. -/
theorem Up.parked_reply (h : e.Up) (call : HookCall) :
    (Engine.reply call e).2.parked = (parks? (e, call)).toList ++ e.parked ∧
      (Engine.reply call e).2.status =
        if beginsStop (e, call) then .suspending else e.status := by
  cases call with
  | before site =>
    unfold Engine.reply parks? beginsStop
    dsimp only
    -- a stop is the one reply that parks a frame and leaves running
    by_cases hstop : e.shouldSuspend site = true
    · obtain ⟨-, hparked⟩ := running_of_shouldSuspend hstop
      rw [if_pos hstop, if_pos hstop, if_pos hstop, suspendAt_eq hstop, hparked]
      exact ⟨rfl, rfl⟩
    · rw [if_neg hstop, if_neg hstop, if_neg hstop]
      exact ⟨rfl, rfl⟩
  | after frame pc opcode failure => cases failure <;> exact ⟨rfl, rfl⟩
  | takeResume =>
    change e.takeResume.2.parked = _ ∧ e.takeResume.2.status = _
    rw [h.takeResume]
    exact ⟨rfl, rfl⟩
  | park | isResuming | raise => exact ⟨rfl, rfl⟩

end Engine

namespace Attended

/-- **What a run leaves parked** that begins while the program runs, or has just stopped: everything
that was parked on the way, and nothing is taken back. -/
theorem parked_run {α : Type} {t : Attended α} {e e' : Engine} {a : α} (h : e.Up)
    (hrun : t.run Engine.reply e = .ok (a, e')) :
    e'.parked = ((t.consultations Engine.reply e).filterMap Engine.parks?).reverse ++ e.parked ∧
      e'.status =
        if (t.consultations Engine.reply e).any Engine.beginsStop then .suspending else e.status := by
  -- over the questions of the call; each entry is parked on top of those before it
  induction t generalizing e with
  | done b =>
    cases hrun
    exact ⟨rfl, rfl⟩
  | stop reason => cases hrun
  | ask call next ih =>
    obtain ⟨hparked, hstatus⟩ := h.parked_reply call
    obtain ⟨hparked', hstatus'⟩ := ih _ (h.reply call) hrun
    constructor
    · rw [hparked', hparked]
      change _ = (List.filterMap Engine.parks? ((e, call) :: _)).reverse ++ _
      cases hparks : Engine.parks? (e, call) with
      | none => rw [List.filterMap_cons_none hparks]; rfl
      | some entry =>
        rw [List.filterMap_cons_some hparks, List.reverse_cons, List.append_assoc]
        rfl
    · -- a stop is not taken back either
      have hany : ((ask call next).consultations Engine.reply e).any Engine.beginsStop =
          (Engine.beginsStop (e, call) || ((next (Engine.reply call e).1).consultations Engine.reply
            (Engine.reply call e).2).any Engine.beginsStop) := List.any_cons
      rw [hstatus', hstatus, hany]
      cases Engine.beginsStop (e, call) with
      | false => rfl
      | true => exact ite_self _

end Attended

namespace Session

variable {σ : Type}

/-- **What is left of a call that failed**, for every interpreter, whatever the call asked on the way.
Let the call be made while the program runs and nothing is parked, by the host or from the queue.

The error is reported, and no target and no barrier is left. What the call parked is still parked, and
a stop that it began goes on. Thus the program runs with nothing parked exactly when nothing was
parked in the call. -/
theorem failed_call_leaves (I : Interpreter σ) {s failed : Session σ} {call : DeferredCall}
    {waiting : List DeferredCall} {error : ExecError} (hs : s.engine.status = .running)
    (hp : s.engine.parked = [])
    (hfail : (s.setEngine { s.engine with waiting }).attend (I.call call.function call.args) =
      .ok (.error error, failed)) :
    ∃ s' : Session σ,
      (waiting = s.engine.waiting → s.execute I call.function call.args =
        .ok (.failed (failed.engine.fail error none).1, s')) ∧
      s.drainCalls I (call :: waiting) = s'.drainCalls I waiting ∧
      (∃ i record, (failed.engine.fail error none).1.index = some i ∧
        s'.engine.errors.records[i]? = some record ∧
        s'.engine.errors.log.toList = failed.engine.errors.log.toList ++
          (if failed.engine.errors.logged i then [] else [record])) ∧
      s'.engine.stepping.target = none ∧ s'.engine.barriers = .empty ∧
      s'.engine.parked = (((I.call call.function call.args s.vm).consultations Engine.reply
        { s.engine with waiting }).filterMap Engine.parks?).reverse ∧
      s'.engine.status = (if ((I.call call.function call.args s.vm).consultations Engine.reply
        { s.engine with waiting }).any Engine.beginsStop then .suspending else .running) ∧
      (s'.engine.status = .running ∧ s'.engine.parked = [] ↔
        ∀ q ∈ (I.call call.function call.args s.vm).consultations Engine.reply
          { s.engine with waiting }, Engine.parks? q = none) := by
  have hup : ({ s.engine with waiting } : Engine).Up := .inl hs
  obtain ⟨hparked, hstatus⟩ := Attended.parked_run hup (attend_eq_ok.mp hfail)
  obtain ⟨i, record, hindex, hrecord, hlog⟩ := reported_fail failed.engine error none
  obtain ⟨e', ⟨errors, events, rfl, -⟩, heq⟩ := failed.engine.fail_eq error none
  set asked := (I.call call.function call.args s.vm).consultations Engine.reply
    { s.engine with waiting } with hasked
  -- reporting the error touches neither the status nor what is parked
  have hparked' : (failed.engine.fail error none).2.parked =
      (asked.filterMap Engine.parks?).reverse := by
    rw [heq]
    refine hparked.trans ?_
    rw [show ({ s.engine with waiting } : Engine).parked = [] from hp, List.append_nil]
    rfl
  have hstatus' : (failed.engine.fail error none).2.status =
      if asked.any Engine.beginsStop then .suspending else .running := by
    rw [heq]
    refine hstatus.trans ?_
    rw [show ({ s.engine with waiting } : Engine).status = .running from hs]
    rfl
  refine ⟨failed.setEngine (failed.engine.fail error none).2, ?_, ?_,
    ⟨i, record, hindex none, hrecord, hlog⟩, ?_, ?_, hparked', hstatus', ?_, ?_⟩
  · rintro rfl
    have hfail : s.attend (I.call call.function call.args) = .ok (.error error, failed) := hfail
    unfold execute
    rw [if_pos hs, hfail]
    rfl
  · -- the queue goes on behind the failure, with the calls that were left
    conv_lhs => unfold drainCalls
    rw [if_pos hs]
    dsimp only
    rw [hfail]
    rfl
  · change (failed.engine.fail error none).2.stepping.target = none
    rw [heq]
    rfl
  · change (failed.engine.fail error none).2.barriers = .empty
    rw [heq]
  · rintro ⟨-, hnone⟩
    exact List.filterMap_eq_nil_iff.mp (List.reverse_eq_nil_iff.mp (hparked'.symm.trans hnone))
  · intro hnone
    have hempty : asked.filterMap Engine.parks? = [] := List.filterMap_eq_nil_iff.mpr hnone
    have hany : asked.any Engine.beginsStop = false :=
      List.any_eq_false.mpr fun q hq => by
        rw [Engine.beginsStop_eq_false (hnone q hq)]
        exact Bool.false_ne_true
    refine ⟨hstatus'.trans ?_, hparked'.trans ?_⟩
    · rw [hany]
      rfl
    · rw [hempty]
      rfl

end Session

/-- A call that stops on its first line and ends when it goes on. The call behind it enters a second
frame, in which an instruction fails, and its own frame lets the error through. -/
def failsBelow : Player where
  frames := SortedMap.ofList [(0, {}), (1, {})]
  scripts := [[.before 0 0 1 0 false none (some [])],
    [.before 0 0 1 0 false none none, .after 0 0 0 none, .complete []],
    [.before 0 1 2 0 false none none, .before 1 0 5 0 false none none,
      .after 1 0 0 (some { message := "broken" }), .after 0 1 0 (some { message := "broken" }),
      .fail { message := "broken" }]]

/-- A call waits behind a stop, with a breakpoint armed. It is made once the first call has ended, asks
in front of two instructions and behind them, and fails; the program runs with nothing parked then. -/
theorem Session.nothing_left_of_a_call :
    ∃ (stopped resumed failed s' : Session Player) (call : DeferredCall) (error : ExecError),
      Session.performAll Player.interpreter ⟨.start {} {} 0, failsBelow⟩
        [.toggleBreakpoint "" 9, .pause, .submit ⟨.nil, []⟩, .submit ⟨.boolean true, []⟩] =
          .ok stopped ∧
      (Chronicle.reenter Player.interpreter (stopped.ordered .resume)).outcome = .ok resumed ∧
      resumed.engine.waiting = [call] ∧
      ((Player.interpreter.call call.function call.args resumed.vm).consultations Engine.reply
        { resumed.engine with waiting := [] }).length = 4 ∧
      (resumed.setEngine { resumed.engine with waiting := [] }).attend
        (Player.interpreter.call call.function call.args) = .ok (.error error, failed) ∧
      resumed.drain Player.interpreter = .ok s' ∧
      s'.engine.status = .running ∧ s'.engine.parked = [] := by
  -- the session behind the re-entry, and what the waiting call asks and comes to there
  have hruns : (Session.performAll Player.interpreter ⟨.start {} {} 0, failsBelow⟩
      [.toggleBreakpoint "" 9, .pause, .submit ⟨.nil, []⟩, .submit ⟨.boolean true, []⟩]).map
        (fun stopped =>
          (Chronicle.reenter Player.interpreter (stopped.ordered .resume)).outcome.map fun resumed =>
            (resumed.engine.status, resumed.engine.parked, resumed.engine.waiting.map fun call =>
              let e := { resumed.engine with waiting := [] }
              let asked := (Player.interpreter.call call.function call.args
                resumed.vm).consultations Engine.reply e
              asked.length = 4 && (asked.all fun q => (Engine.parks? q).isNone) &&
                ((resumed.setEngine e).attend (Player.interpreter.call call.function
                  call.args)).toOption.any fun p => p.1.toOption.isNone)) =
      .ok (.ok (.running, [], [true])) := by
    decide +kernel
  obtain ⟨stopped, hstopped, hruns⟩ := Attended.exists_of_map_eq_ok hruns
  obtain ⟨resumed, hresumed, hruns⟩ := Attended.exists_of_map_eq_ok hruns
  obtain ⟨hrunning, hruns⟩ := Prod.mk.inj hruns
  obtain ⟨hparked, hruns⟩ := Prod.mk.inj hruns
  obtain ⟨call, hwaiting, hruns⟩ := List.map_eq_singleton_iff.mp hruns
  obtain ⟨hasked, hfails⟩ := Bool.and_eq_true_iff.mp hruns
  obtain ⟨hfour, hnone⟩ := Bool.and_eq_true_iff.mp hasked
  obtain ⟨⟨result, failed⟩, hfail, hresult⟩ := Attended.exists_of_any_toOption hfails
  cases result with
  | ok outcome => cases hresult
  | error error =>
    obtain ⟨s', -, hdrained, -, -, -, -, -, hclean⟩ :=
      Session.failed_call_leaves Player.interpreter hrunning hparked hfail
    obtain ⟨hrunning', hparked'⟩ := hclean.mpr fun q hq =>
      Option.isNone_iff_eq_none.mp (List.all_eq_true.mp hnone q hq)
    refine ⟨stopped, resumed, failed, s', call, error, hstopped, hresumed, hwaiting,
      of_decide_eq_true hfour, hfail, ?_,
      hrunning', hparked'⟩
    -- no call waits behind it
    unfold Session.drain
    rw [hwaiting, hdrained]
    rfl

/-- A call that stops on its first line, but fails instead of ending there. -/
def failsInAStop : Player where
  frames := SortedMap.ofList [(0, {})]
  scripts := [[.before 0 0 1 0 false none none, .fail { message := "broken" }]]

/-- A call that fails after it began a stop leaves its frame parked, and the stop goes on. -/
theorem Session.stop_left_of_a_call :
    ∃ s error s', Session.performAll Player.interpreter ⟨.start {} {} 0, failsInAStop⟩ [.pause] =
        .ok s ∧ s.engine.status = .running ∧ s.engine.parked = [] ∧
      s.execute Player.interpreter .nil [] = .ok (.failed error, s') ∧
      ¬(s'.engine.status = .running ∧ s'.engine.parked = []) := by
  -- with the pause, and then with the call that stops and fails
  have hruns : (Session.performAll Player.interpreter ⟨.start {} {} 0, failsInAStop⟩
      [.pause]).map (fun s => (s.engine.status, s.engine.parked,
        (s.execute Player.interpreter .nil []).map fun p =>
          (match p.1 with
            | .failed _ => true
            | .completed _ => false
            | .suspended => false
            | .queued => false, p.2.engine.status))) =
      .ok (.running, [], .ok (true, .suspending)) := by
    decide +kernel
  obtain ⟨s, hs, hstate⟩ := Attended.exists_of_map_eq_ok hruns
  obtain ⟨hrunning, hstate⟩ := Prod.mk.inj hstate
  obtain ⟨hparked, hexecute⟩ := Prod.mk.inj hstate
  obtain ⟨⟨execution, s'⟩, hs', hresult⟩ := Attended.exists_of_map_eq_ok hexecute
  obtain ⟨hfailed, hstatus⟩ := Prod.mk.inj hresult
  cases execution with
  | failed error =>
    refine ⟨s, error, s', hs, hrunning, hparked, hs', fun hclean => ?_⟩
    rw [hclean.1] at hstatus
    cases hstatus
  | _ => cases hfailed

end BytecodeDebugger
