import BytecodeDebugger.Proofs.Engine.Logging
import BytecodeDebugger.Proofs.Machine.Alone
import BytecodeDebugger.Proofs.Session.Advance
import BytecodeDebugger.Proofs.Session.Calls

/-!
# Debugging is transparent

However the host's calls are interleaved with the commands of the debugger, the program does what it
would have done without one. In the middle of all this a call may be held up at any instruction, its
frames may be parked and entered again, and other calls may wait behind it. What stays true is
`Transparent`: the calls that were made so far came to what they come to when they are made one after
another without a debugger, and what is left of a call that is held up leads where the whole call
leads.

Main statements:

* `conclude_logs` — a failure that escapes adds its message to the error log;
* `Transparent.steady` — what is proved about runs in `Machine.run_attends` holds over all operations;
* `Session.transparent` — when the program runs and no call waits, the machine is the one without a
  debugger, and the error log holds one record for each call that failed.
-/

namespace BytecodeDebugger

/-- The message with which the failure of a call is reported; that of a failure of the host is
wrapped. -/
def reportedMessage : RunResult → Option String
  | .ok _ => none
  | .error (.runtime e) => some e.message
  | .error (.host e) => some (ErrorLog.hostMessage e)

/-! ### The end of a run -/

/-- **What the end of a run adds to the error log**: nothing if it completed, and its message if it
failed. -/
theorem conclude_logs {e : Engine} {l l' : ErrorLog} {x x₀ : RunResult × Machine}
    (h : Machine.Alike l x x₀ l') (hl : l.Sound) (hplain : ∀ err, x₀.1 = .error err → err.Unindexed)
    (origin : Option StackEntry) :
    x.2 = x₀.2 ∧ (({ e with errors := l' } : Engine).conclude origin x.1).errors.Sound ∧
      (({ e with errors := l' } : Engine).conclude origin x.1).errors.messages =
        l.messages ++ (reportedMessage x₀.1).toList := by
  cases h with
  | completed values m => exact ⟨rfl, hl, (List.append_nil _).symm⟩
  | host failure m =>
    refine ⟨rfl, ?_⟩
    simp only [Engine.conclude]
    rw [Engine.errors_fail_host]
    exact hl.logs _ _
  | indexed message passed position m =>
    have hknown : (l.create message position).2.knows l.records.size = true := by
      simp [ErrorLog.knows, ErrorLog.create]
    refine ⟨rfl, ?_⟩
    simp only [Engine.conclude]
    rw [Engine.errors_fail_indexed hknown]
    exact hl.logs message position
  | foreign err err₀ message index indexed m traceback =>
    -- without a debugger no error has an index
    have hnone : err₀.index = none := hplain _ rfl
    exact absurd (index.trans hnone) indexed

/-! ### The invariant -/

/-- **The calls came to this without a debugger**, and the messages are those of the failures. -/
def Replayed (start : Machine) (calls : List DeferredCall) (messages : List String) (m : Machine) :
    Prop :=
  ∃ k results, Machine.callAll k calls start = .ok (results, m) ∧
    messages = results.filterMap reportedMessage

theorem Replayed.snoc {start m m' : Machine} {calls : List DeferredCall} {messages : List String}
    {c : DeferredCall} {r : RunResult} (h : Replayed start calls messages m)
    (hcall : ∃ k, (Machine.call k c.function c.args m).detach = .ok (r, m')) :
    Replayed start (calls ++ [c]) (messages ++ (reportedMessage r).toList) m' := by
  obtain ⟨k, results, hcalls, rfl⟩ := h
  obtain ⟨k', hcall⟩ := hcall
  refine ⟨_, _, Machine.callAll_snoc hcalls hcall, ?_⟩
  rw [List.filterMap_append]
  cases hr : reportedMessage r <;> simp [hr]

/-- **How far the calls are**: between two of them, or in the middle of the last, whose rest is what
the frames on the stack have still to do. -/
inductive Progress (start : Machine) (messages : List String) (m : Machine) :
    List DeferredCall → List FrameId → Prop where
  | between (calls : List DeferredCall) (replayed : Replayed start calls messages m) :
    Progress start messages m calls []
  | within (calls : List DeferredCall) (c : DeferredCall) (m₁ : Machine) (stack : List FrameId)
    (unfinished : stack ≠ []) (replayed : Replayed start calls messages m₁)
    (rest : ∀ k x, (Machine.run k stack m).detach = .ok x →
      ∃ k, (Machine.call k c.function c.args m₁).detach = .ok x) :
    Progress start messages m (calls ++ [c]) stack

/-- With nothing on the stack every call came to its end. -/
theorem Progress.replayed {start m : Machine} {messages : List String} {calls : List DeferredCall}
    (h : Progress start messages m calls []) : Replayed start calls messages m := by
  cases h with
  | between _ replayed => exact replayed
  | within calls c m₁ stack unfinished => exact absurd rfl unfinished

/-- **A session at rest that did what its calls do without a debugger.** -/
structure Transparent (start : Machine) (h : List Happening) (s : Session Machine) : Prop where
  sound : s.engine.errors.Sound
  progress : ∃ stack made, s.Resting stack ∧ submittedCalls h = made ++ s.engine.waiting ∧
    Progress start s.engine.errors.messages s.vm made stack

namespace Transparent

variable {start : Machine} {h : List Happening} {s : Session Machine}

theorem of_engine (hs : Transparent start h s) {e : Engine} (hstatus : e.status = s.engine.status)
    (hparked : e.parked = s.engine.parked) (hwaiting : e.waiting = s.engine.waiting)
    (herrors : e.errors = s.engine.errors) : Transparent start h (s.setEngine e) := by
  -- the four parts of the engine that are spoken of are the same
  obtain ⟨stack, made, hstack, hmade, hprogress⟩ := hs.progress
  refine ⟨?_, stack, made, hstack.of_engine hstatus hparked, ?_, ?_⟩
  · change e.errors.Sound
    rw [herrors]
    exact hs.sound
  · change _ = made ++ e.waiting
    rw [hwaiting]
    exact hmade
  · change Progress start e.errors.messages s.vm made stack
    rw [herrors]
    exact hprogress

/-- **A call goes on under the debugger**, and either comes to its end or is held up again. -/
theorem ends {m m₁ : Machine} {e e' : Engine} {x : RunResult × Machine} {calls : List DeferredCall}
    {c : DeferredCall} (hstart : start.frames = .empty) (hhosts : start.Unindexed)
    (hreplayed : Replayed start calls e.errors.messages m₁) (hsound : e.errors.Sound)
    (hs : e.status = .running) (hp : e.parked = [])
    (hends : Machine.Ends (fun y => ∃ k, (Machine.call k c.function c.args m₁).detach = .ok y) .empty
      m e x e') (origin : Option StackEntry) :
    (e'.conclude origin x.1).errors.Sound ∧ ∃ stack,
      Session.Resting ⟨e'.conclude origin x.1, x.2⟩ stack ∧
        Progress start (e'.conclude origin x.1).errors.messages x.2 (calls ++ [c]) stack := by
  cases hends with
  | held m' e₁ current callers a i runs grows works held rest =>
    -- held up: what is left of the call is on the stack
    have hs₁ := works.status.trans hs
    have hp₁ := works.parked.trans hp
    have herrors : (e₁.hold (Machine.siteOf current a i) callers).errors = e.errors := by
      rw [Engine.hold_eq hs₁ hp₁]
      exact works.errors
    have hresting := Machine.resting_held runs hs₁ hp₁ a i
    refine ⟨?_, current :: callers, hresting, ?_⟩
    · change (e₁.hold (Machine.siteOf current a i) callers).errors.Sound
      rw [herrors]
      exact hsound
    · change Progress start (e₁.hold (Machine.siteOf current a i) callers).errors.messages m' _ _
      rw [herrors]
      exact .within calls c m₁ _ (by simp) hreplayed rest
  | ended x x₀ e₁ l' alone alike works frames bounded grows =>
    have hs₁ : ({ e₁ with errors := l' } : Engine).status = .running := works.status.trans hs
    have hresting := Machine.resting_ended hs₁ (works.parked.trans hp) frames bounded origin x.1
    -- the call was made from a machine without frames, whose host functions are those of the start
    have hbefore : m₁.frames = .empty ∧ start.Grows m₁ := by
      obtain ⟨k, results, hcalls, -⟩ := hreplayed
      exact Machine.callAll_restores hstart hcalls
    obtain ⟨hframes, hgrows⟩ := hbefore
    obtain ⟨k', hcall⟩ := alone
    have hplain := Machine.call_unindexed (.of_empty hframes) (hhosts.of_grows hgrows) hcall
    -- the errors that came out alone have no index, so that each of them has a record of its own
    obtain ⟨hvm, hsound', hmessages⟩ := conclude_logs (e := e₁) alike hsound hplain origin
    refine ⟨hsound', [], hresting, .between _ ?_⟩
    rw [hmessages, hvm]
    exact hreplayed.snoc ⟨k', hcall⟩

/-- A stop that is announced changes nothing that a program can see. -/
theorem announced (hs : Transparent start h s) (I : Interpreter Machine) (location : SourceLocation)
    (hsuspending : s.engine.status = .suspending) :
    Transparent start h (s.enterSuspended I location) := by
  obtain ⟨stack, made, hstack, hmade, hprogress⟩ := hs.progress
  have hrests := hstack.enterSuspended (I := I) hsuspending location
  obtain ⟨payload, timers, heq⟩ := Session.Resting.enterSuspended_eq I hsuspending location
  rw [heq] at hrests ⊢
  exact ⟨hs.sound, stack, made, hrests, hmade, hprogress⟩

/-- A submitted call waits behind the others. -/
theorem submitted (hs : Transparent start h s) (c : DeferredCall) :
    Transparent start (h ++ [.submitted c])
      (s.setEngine { s.engine with waiting := s.engine.waiting ++ [c] }) := by
  obtain ⟨stack, made, hstack, hmade, hprogress⟩ := hs.progress
  refine ⟨hs.sound, stack, made, hstack.of_engine rfl rfl, ?_, hprogress⟩
  rw [submittedCalls_append, hmade]
  exact List.append_assoc _ _ _

/-- The first call that waits is the next one to be made. -/
theorem started (hs : Transparent start h s) (hstart : start.frames = .empty)
    (hhosts : start.Unindexed) (fuel : Nat) {c : DeferredCall} {waiting : List DeferredCall}
    (hrunning : s.engine.status = .running) (hw : s.engine.waiting = c :: waiting) :
    (Chronicle.start (Machine.interpreter fuel) s c waiting).Meets (fun _ => True) h
      (Transparent start) := by
  obtain ⟨stack, made, hstack, hmade, hprogress⟩ := hs.progress
  obtain ⟨rfl, hparked⟩ := hstack.unparked hrunning
  refine ⟨fun _ _ => trivial, fun s' hs' => ?_⟩
  obtain ⟨x, e', rfl, -, hends⟩ := start_advances hstack hs'
  obtain ⟨hsound, stack, hresting, hprogress⟩ :=
    ends (e := { s.engine with waiting }) hstart hhosts hprogress.replayed hs.sound hrunning hparked
      hends none
  refine ⟨hsound, stack, made ++ [c], hresting, ?_, hprogress⟩
  -- the call moves from those that wait to those that were made
  change _ = made ++ [c] ++ (e'.conclude none x.1).waiting
  rw [hends.waiting hrunning hparked none, submittedCalls_append, Chronicle.submitted_start,
    List.append_nil, hmade, hw, List.append_assoc]
  rfl

/-- When nothing is held up, waking the engine makes no call. -/
theorem woken (hs : Transparent start h s) {made : List DeferredCall} (hstack : s.Resting [])
    (hmade : submittedCalls h = made ++ s.engine.waiting)
    (hreplayed : Replayed start made s.engine.errors.messages s.vm) :
    Transparent start h (s.setEngine s.engine.woken) := by
  have hwoken := Engine.woken_eq hstack.paused
  have herrors : s.engine.woken.errors = s.engine.errors := by rw [hwoken]
  have hwaiting : s.engine.woken.waiting = s.engine.waiting := by rw [hwoken]
  refine ⟨?_, [], made, hstack.woken, ?_, ?_⟩
  · change s.engine.woken.errors.Sound
    rw [herrors]
    exact hs.sound
  · change _ = made ++ s.engine.woken.waiting
    rw [hwaiting]
    exact hmade
  · change Progress start s.engine.woken.errors.messages s.vm made []
    rw [herrors]
    exact .between made hreplayed

/-- A call that is held up goes on where it was. -/
theorem reentered (hs : Transparent start h s) (hstart : start.frames = .empty)
    (hhosts : start.Unindexed) (fuel : Nat) :
    (Chronicle.reenter (Machine.interpreter fuel) s).Meets (fun _ => True) h (Transparent start) := by
  obtain ⟨stack, made, hstack, hmade, hprogress⟩ := hs.progress
  have hwoken := Engine.woken_eq hstack.paused
  cases hprogress with
  | between _ replayed =>
    rw [reenter_nil _ hstack.paused hstack.parked]
    exact .pure trivial (hs.woken hstack hmade replayed)
  | within calls c m₁ _ unfinished replayed rest =>
    obtain ⟨inner, outer, rfl⟩ : ∃ inner outer, stack = inner ++ [outer] :=
      ⟨_, _, (List.dropLast_append_getLast unfinished).symm⟩
    refine ⟨fun _ _ => trivial, fun s' hs' => ?_⟩
    obtain ⟨x, e', origin, rfl, -, hends⟩ := reenter_advances hstack hs'
    -- where the rest of the call leads, the whole call leads
    have hcall : Machine.Ends (fun y => ∃ k, (Machine.call k c.function c.args m₁).detach = .ok y)
        .empty s.vm s.engine.woken x e' := by
      refine hends.mono (.refl _) (.refl _) ?_
      rintro y ⟨k, hk⟩
      exact rest k y hk
    -- the engine that is woken runs with nothing parked, and otherwise is the one that rested
    have hrunning : s.engine.woken.status = .running := by rw [hwoken]
    have hparked : s.engine.woken.parked = [] := by rw [hwoken]
    have hwaiting : s.engine.woken.waiting = s.engine.waiting := by rw [hwoken]
    have hreplayed : Replayed start calls s.engine.woken.errors.messages m₁ := by
      rw [hwoken]
      exact replayed
    have hsound : s.engine.woken.errors.Sound := by
      rw [hwoken]
      exact hs.sound
    obtain ⟨hsound', stack, hresting, hprogress⟩ :=
      ends hstart hhosts hreplayed hsound hrunning hparked hcall origin
    refine ⟨hsound', stack, calls ++ [c], hresting, ?_, hprogress⟩
    change _ = calls ++ [c] ++ (e'.conclude origin x.1).waiting
    rw [hcall.waiting hrunning hparked origin, hwaiting, submittedCalls_append,
      Chronicle.submitted_reenter, List.append_nil]
    exact hmade

/-- **Whatever is done, the program does what it does without a debugger**, as long as no errors are
reported from outside. -/
theorem steady (fuel : Nat) (hstart : start.frames = .empty) (hhosts : start.Unindexed) :
    Steady (Machine.interpreter fuel) False (fun _ => True) (Transparent start) where
  safe _ := trivial
  tweak hs he := by
    obtain ⟨_, _, _, _, _, _, _, _, rfl, -⟩ := he
    exact hs.of_engine rfl rfl rfl rfl
  report hc _ _ := hc.elim
  announce location hs hsuspending := hs.announced _ location hsuspending
  submit c hs := hs.submitted c
  start hs hrunning hw := hs.started hstart hhosts fuel hrunning hw
  reenter hs := hs.reentered hstart hhosts fuel

end Transparent

/-! ### The main result -/

/-- **Debugging is transparent.** Take any machine without frames whose host functions raise no errors
that have an index already, and drive a new session over it in whatever way, reports of errors from
outside excepted. When the program runs and no call waits, the same calls made one after another
without a debugger end as well, and they leave exactly the machine of the session: its heap and
globals, functions, counters, output and traceback, and no frames. The error log holds one record for
each call that failed there, in this order and with its message. -/
theorem Session.transparent (fuel : Nat) (config : Config) (saved : SavedSession) (clock : Time)
    (vm : Machine) (hvm : vm.frames = .empty) (hhosts : vm.Unindexed) (ops : List Operation)
    (hops : ∀ op ∈ ops, op.isReport = false) (s : Session Machine)
    (hs : Session.performAll (Machine.interpreter fuel) ⟨.start config saved clock, vm⟩ ops = .ok s)
    (hrunning : s.engine.status = .running) (hidle : s.engine.waiting = []) :
    (∃ k outcome, Machine.callAll k (ops.filterMap Operation.submitted?) vm = .ok outcome) ∧
    ∀ k results final,
      Machine.callAll k (ops.filterMap Operation.submitted?) vm = .ok (results, final) →
        s.vm = final ∧ final.frames = .empty ∧
          s.engine.errors.log.toList.map (·.message) = results.filterMap reportedMessage := by
  have hfresh : Transparent vm [] ⟨.start config saved clock, vm⟩ :=
    ⟨.empty, [], [], .fresh config saved clock hvm, rfl, .between [] ⟨0, [], rfl, rfl⟩⟩
  have hreports : ∀ op ∈ ops, op.isReport = true → False := by
    intro op hop hreport
    rw [hops op hop] at hreport
    cases hreport
  rw [← Chronicle.outcome_performAll] at hs
  have hmeets := (Transparent.steady fuel hvm hhosts).performAll ⟨hfresh, fun _ => rfl⟩ ops hreports
  obtain ⟨stack, made, hstack, hmade, hprogress⟩ := (hmeets.ends s hs).holds.progress
  obtain ⟨rfl, -⟩ := hstack.unparked hrunning
  -- nothing waits, so that all calls were made
  have hcalls : made = ops.filterMap Operation.submitted? := by
    rw [hidle, List.append_nil, List.nil_append] at hmade
    rw [← hmade]
    exact (Chronicle.submitted_performAll _ _ ops).2 s hs
  obtain ⟨k, results, hreplay, hmessages⟩ := hprogress.replayed
  rw [hcalls] at hreplay
  refine ⟨⟨k, _, hreplay⟩, fun k' results' final hfinal => ?_⟩
  -- two budgets are compared at the greater of them
  have hleft := Machine.callAll_mono (Nat.le_max_left k k') hreplay
  have hright := Machine.callAll_mono (Nat.le_max_right k k') hfinal
  rw [hleft] at hright
  cases hright
  exact ⟨rfl, hstack.frames, hmessages⟩

/-- A machine with a host function that raises an error with an index of its own. -/
def Machine.stamping : Machine :=
  Machine.relay.register "stamp" (Host.failing (.runtime { message := "late", index := some 0 }))

/-- The condition on host functions is needed: two failures with the same index are logged once. -/
theorem Session.transparent_needs_unindexed :
    Machine.stamping.frames = .empty ∧ ∃ s results final,
      Session.performAll (Machine.interpreter 10) ⟨.start {} {} 0, .stamping⟩
        [.submit ⟨.function 2, []⟩, .submit ⟨.function 2, []⟩] = .ok s ∧
      s.engine.status = .running ∧ s.engine.waiting.length = 0 ∧
      Machine.callAll 10 [⟨.function 2, []⟩, ⟨.function 2, []⟩] .stamping = .ok (results, final) ∧
      results.filterMap reportedMessage = ["late", "late"] ∧
      s.engine.errors.log.toList.map (·.message) = ["late"] := by
  -- the host stamps both errors with the same index, and the second is taken for the first
  have hsession : (Session.performAll (Machine.interpreter 10) ⟨.start {} {} 0, .stamping⟩
      [.submit ⟨.function 2, []⟩, .submit ⟨.function 2, []⟩]).map (fun s =>
        (s.engine.status, s.engine.waiting.length, s.engine.errors.log.toList.map (·.message))) =
          .ok (.running, 0, ["late"]) := by
    decide +kernel
  have halone : (Machine.callAll 10 [⟨.function 2, []⟩, ⟨.function 2, []⟩] .stamping).map
      (fun x => x.1.filterMap reportedMessage) = .ok ["late", "late"] := by
    decide +kernel
  obtain ⟨s, hs, hstate⟩ := Attended.exists_of_map_eq_ok hsession
  obtain ⟨⟨results, final⟩, hcalls, hresults⟩ := Attended.exists_of_map_eq_ok halone
  obtain ⟨hstatus, hstate⟩ := Prod.mk.inj hstate
  obtain ⟨hwaiting, hlog⟩ := Prod.mk.inj hstate
  exact ⟨rfl, s, results, final, hs, hstatus, hwaiting, hcalls, hresults, hlog⟩

theorem Machine.relay_unindexed : Machine.relay.Unindexed := by
  rintro _ ⟨id, f, args, hf, rfl⟩
  -- it has two functions, and both are closures
  rcases id with _ | _ | id <;> cases hf

/-- A call that is held up, and another one that waits meanwhile and fails. -/
theorem Session.transparent_with_a_waiting_call :
    ∃ s k results final,
      Session.performAll (Machine.interpreter 10)
        ⟨.start {} {} 0, Machine.relay.register "error" Host.raiseText⟩
        [.pause, .submit ⟨.function 0, [.function 1]⟩, .submit ⟨.function 2, [.string "late"]⟩,
          .stepIn, .resume] = .ok s ∧
      Machine.callAll k [⟨.function 0, [.function 1]⟩, ⟨.function 2, [.string "late"]⟩]
        (Machine.relay.register "error" Host.raiseText) = .ok (results, final) ∧
      s.vm = final ∧ s.engine.errors.log.toList.map (·.message) = ["late"] := by
  have hsession : (Session.performAll (Machine.interpreter 10)
      ⟨.start {} {} 0, Machine.relay.register "error" Host.raiseText⟩
      [.pause, .submit ⟨.function 0, [.function 1]⟩, .submit ⟨.function 2, [.string "late"]⟩,
        .stepIn, .resume]).map (fun s =>
          (s.engine.status, s.engine.waiting.length, s.engine.errors.log.toList.map (·.message))) =
            .ok (.running, 0, ["late"]) := by
    decide +kernel
  obtain ⟨s, hs, hstate⟩ := Attended.exists_of_map_eq_ok hsession
  obtain ⟨hstatus, hstate⟩ := Prod.mk.inj hstate
  obtain ⟨hwaiting, hlog⟩ := Prod.mk.inj hstate
  obtain ⟨⟨k, ⟨results, final⟩, hcalls⟩, hsame⟩ := Session.transparent 10 {} {} 0
    (Machine.relay.register "error" Host.raiseText) rfl
    (Machine.relay_unindexed.register "error" fun args => rfl)
    [.pause, .submit ⟨.function 0, [.function 1]⟩, .submit ⟨.function 2, [.string "late"]⟩,
      .stepIn, .resume] (by decide) s hs hstatus (List.length_eq_zero_iff.mp hwaiting)
  exact ⟨s, k, results, final, hs, hcalls, (hsame k results final hcalls).1, hlog⟩

end BytecodeDebugger
