import BytecodeDebugger.Proofs.Engine.Works
import BytecodeDebugger.Proofs.Machine.Turn

/-!
# Runs under the debugger

A run that the engine attends is compared with the same run without a debugger. Turn by turn the two
are the same as long as the engine holds nothing up: they leave the same machine, and an error
differs by nothing but the index that the engine gave it (`Alike`). When the engine holds a frame up,
the machine is the one from which the run without a debugger would go on.

Main statements:

* `turn_attends` — one turn under the debugger;
* `run_attends`, `call_attends` — a run under the debugger ends like the run without one, or is held
  up at a place from which what is left of the run without a debugger leads to the same end;
* `runFrame_run` — rebuilding a parked call chain is going on from that place.
-/

namespace BytecodeDebugger.Machine

open Attended

/-! ### Results that differ by an index -/

/-- **Results with a debugger and without one**, and the error log with the debugger, given the log
before. -/
inductive Alike (l : ErrorLog) : RunResult × Machine → RunResult × Machine → ErrorLog → Prop where
  | completed (values : List Value) (m : Machine) :
    Alike l (.ok (.completed values), m) (.ok (.completed values), m) l
  /-- a failure of the host has no index before it escapes -/
  | host (e : HostError) (m : Machine) :
    Alike l (.error (.host e), m) (.error (.host e), m) l
  /-- an error of the program gets the next index -/
  | indexed (message : String) (stack : List StackEntry) (position : Option SourceLocation)
    (m : Machine) :
    Alike l (.error (.runtime ⟨message, stack, some l.records.size⟩), m)
      (.error (.runtime ⟨message, stack, none⟩), m) (l.create message position).2
  /-- an error that brought an index along keeps it; a frame that it had passed before is not listed
  again -/
  | foreign (e e₀ : RuntimeError) (message : e.message = e₀.message) (index : e.index = e₀.index)
    (indexed : e.index ≠ none) (m : Machine) (traceback : Option String) :
    Alike l (.error (.runtime e), { m with traceback }) (.error (.runtime e₀), m) l

theorem Alike.frames {l l' : ErrorLog} {x x₀ : RunResult × Machine} (h : Alike l x x₀ l') :
    x.2.frames = x₀.2.frames ∧ x.2.functions = x₀.2.functions ∧
      x.2.nextFrame = x₀.2.nextFrame := by
  cases h <;> exact ⟨rfl, rfl, rfl⟩

/-! ### Turns -/

section Turns

variable {inner : InnerCall} {m : Machine} {ground : SortedMap FrameId Activation}
  {stack : List FrameId} {current : FrameId} {callers : List FrameId} {e e' : Engine}

/-- Parking the callers is all that is left to do for a frame that is held up. -/
theorem run_parkAll {α : Type} (frames : List FrameId) (rest : Attended α) (e : Engine) :
    (parkAll frames rest).run Engine.reply e =
      rest.run Engine.reply ((frames.map Resumable.call).foldl Engine.park e) := by
  induction frames generalizing e with
  | nil => rfl
  | cons frame frames ih => exact ih _

/-- The traceback does not matter when frames are dropped. -/
theorem abandon_traceback (m : Machine) (stack : List FrameId) (traceback : Option String) :
    { m with traceback }.abandon stack = { m.abandon stack with traceback } := by
  unfold abandon
  induction stack generalizing m with
  | nil => rfl
  | cons f stack ih => exact ih (m.dropFrame f)

theorem run_failTurn {err : ExecError} {t : Turn}
    (h : (m.failTurn stack err).run Engine.reply e = .ok (t, e')) :
    ∃ entries, m.callerEntries stack.tail = .ok entries ∧ e' = e ∧
      t = .finish (.error (err.through entries))
        ({ m with traceback := some (m.renderStack (err.through entries).stack) }.abandon stack) ∧
      (m.failTurn stack err).detach = .ok t := by
  simp only [failTurn, run_ofExcept, detach_ofExcept, unwind] at h ⊢
  -- the callers are all there, since the turn came to an end
  cases hc : m.callerEntries stack.tail with
  | error reason =>
    rw [hc] at h
    cases h
  | ok entries =>
    rw [hc] at h
    cases h
    exact ⟨entries, rfl, rfl, rfl, rfl⟩

/-- An error that the engine made just now, and the same error without a debugger. -/
theorem run_reportFailed_new {pc : Nat} {code : UInt8} {message : String} {n : ErrorIndex} {t : Turn}
    (h : (m.reportFailed stack current pc code { message, index := some n }).run Engine.reply e =
      .ok (t, e')) :
    ∃ passed m₁, e' = e ∧ t = .finish (.error (.runtime ⟨message, passed, some n⟩)) m₁ ∧
      (m.reportFailed stack current pc code { message }).detach =
        .ok (.finish (.error (.runtime ⟨message, passed, none⟩)) m₁) := by
  simp only [reportFailed, run_ask, Engine.reply, RuntimeError.tag] at h
  obtain ⟨entries, hc, rfl, rfl, -⟩ := run_failTurn h
  refine ⟨_, _, rfl, rfl, ?_⟩
  simp only [reportFailed, detach_ask, idle, Option.map, failTurn, detach_ofExcept, unwind, hc]
  rfl

/-- An error that brought an index along. -/
theorem run_reportFailed_foreign {pc : Nat} {code : UInt8} {err : RuntimeError} {t : Turn}
    (h : (m.reportFailed stack current pc code err).run Engine.reply e = .ok (t, e')) :
    ∃ err' err₀ m₀ traceback, e' = e ∧ err'.message = err.message ∧ err'.index = err.index ∧
      err₀.message = err.message ∧ err₀.index = err.index ∧
      t = .finish (.error (.runtime err')) { m₀ with traceback } ∧
      (m.reportFailed stack current pc code err).detach =
        .ok (.finish (.error (.runtime err₀)) m₀) := by
  simp only [reportFailed, run_ask, Engine.reply] at h
  obtain ⟨entries, hc, rfl, rfl, -⟩ := run_failTurn h
  have htag : (err.tag ⟨current, pc⟩).message = err.message ∧
      (err.tag ⟨current, pc⟩).index = err.index := by
    unfold RuntimeError.tag
    split <;> exact ⟨rfl, rfl⟩
  -- the two errors are rendered differently, and the frames are dropped in the same way
  set passed := err.tag ⟨current, pc⟩ with hpassed
  let alone : RuntimeError := { err with stack := err.stack ++ [⟨current, pc⟩] ++ entries }
  refine ⟨{ passed with stack := passed.stack ++ entries }, alone,
    { m with traceback := some (m.renderStack alone.stack) }.abandon stack,
    some (m.renderStack (passed.stack ++ entries)), rfl, htag.1, htag.2, rfl, rfl, ?_, ?_⟩
  · have hwith := abandon_traceback m stack (some (m.renderStack (passed.stack ++ entries)))
    have halone := abandon_traceback m stack (some (m.renderStack alone.stack))
    rw [halone]
    exact congrArg (Turn.finish _) hwith
  · simp only [reportFailed, detach_ask, idle, Option.map, failTurn, detach_ofExcept, unwind, hc]
    rfl

/-- **What a tail comes to under the engine**: the same as alone, or an error that is alike. -/
theorem Tail.attends {pc : Nat} {code : UInt8} {tail : Attended Turn} {t : Turn}
    (htail : Tail inner m ground stack current pc code tail)
    (h : tail.run Engine.reply e = .ok (t, e')) :
    (tail.detach = .ok t ∧ t.error? = none ∧ m.Moves current t.machine ∧
      (code = Op.returnCode → t.machine.frame? current = none) ∧
      e' = e.instructionDone current code) ∨
    ∃ err m₁ x₀ e₁ l', t = .finish (.error err) m₁ ∧ tail.detach = .ok (.finish x₀.1 x₀.2) ∧
      Alike e.errors (.error err, m₁) x₀ l' ∧ e.Works e₁ ∧ e' = { e₁ with errors := l' } := by
  cases htail with
  | stop reason => cases h
  | lost reason m₁ => cases h
  | done m₁ t' orderly moves success gone =>
    cases h
    exact .inl ⟨rfl, success, moves, gone, rfl⟩
  -- the errors of the machine's own making get an index from the engine, and none alone
  | overflow m₁ m₂ message frames grows bounded =>
    cases h
    exact .inr ⟨_, m₂, (_, m₂), _, _, rfl, rfl, .indexed message [] _ m₂,
      Engine.works_instructionDone e current code, rfl⟩
  | fault m₁ message runs grows =>
    obtain ⟨passed, m₂, rfl, rfl, halone⟩ := run_reportFailed_new h
    exact .inr ⟨_, m₂, (_, m₂), _, _, rfl, halone, .indexed message passed _ m₂, .refl e, rfl⟩
  | foreign m₁ err indexed raised runs grows =>
    -- the engine knows the index, and may list the frame only once
    obtain ⟨err', err₀, m₀, traceback, rfl, hm, hi, hm₀, hi₀, rfl, halone⟩ :=
      run_reportFailed_foreign h
    have hindexed : err'.index ≠ none := by rw [hi]; exact indexed
    exact .inr ⟨_, { m₀ with traceback }, (_, m₀), _, _, rfl, halone,
      .foreign err' err₀ (hm.trans hm₀.symm) (hi.trans hi₀.symm) hindexed m₀ traceback, .refl e',
      rfl⟩
  | host m₁ err runs grows =>
    obtain ⟨entries, -, rfl, rfl, halone⟩ := run_failTurn h
    exact .inr ⟨_, _, (_, _), _, _, rfl, halone, .host _ _, .refl e', rfl⟩

/-- **One turn under the debugger**, and what the engine is afterwards. -/
inductive Attends (inner : InnerCall) (m : Machine) (current : FrameId) (callers : List FrameId)
    (e : Engine) : Turn → Engine → Prop where
  /-- the frame is held up, and the machine is as before -/
  | held (a : Activation) (i : Instruction) (frame : m.frame? current = some a)
    (next : a.closure.proto.instructions[a.pc]? = some i)
    (held : e.shouldSuspend (siteOf current a i) = true) :
    Attends inner m current callers e (.finish (.ok .suspended) m)
      (e.hold (siteOf current a i) callers)
  /-- the instruction runs -/
  | passed (a : Activation) (i : Instruction) (t : Turn) (frame : m.frame? current = some a)
    (next : a.closure.proto.instructions[a.pc]? = some i)
    (passes : e.shouldSuspend (siteOf current a i) = false)
    (alone : (turn inner m (current :: callers)).detach = .ok t) (success : t.error? = none)
    (moves : m.Moves current t.machine)
    (gone : i.code = Op.returnCode → t.machine.frame? current = none) :
    Attends inner m current callers e t
      ((e.passBy (siteOf current a i)).instructionDone current i.code)
  /-- there was no further instruction -/
  | left (a : Activation) (t : Turn) (frame : m.frame? current = some a)
    (next : a.closure.proto.instructions[a.pc]? = none)
    (alone : (turn inner m (current :: callers)).detach = .ok t) (success : t.error? = none)
    (moves : m.Moves current t.machine) (gone : t.machine.frame? current = none) :
    Attends inner m current callers e t (e.instructionDone current Op.returnCode)
  /-- the run fails -/
  | failed (err : ExecError) (m₁ : Machine) (x₀ : RunResult × Machine) (e₁ : Engine)
    (l' : ErrorLog) (alone : (turn inner m (current :: callers)).detach = .ok (.finish x₀.1 x₀.2))
    (alike : Alike e.errors (.error err, m₁) x₀ l') (works : e.Works e₁) :
    Attends inner m current callers e (.finish (.error err) m₁) { e₁ with errors := l' }

theorem turn_attends (hinner : InnerKeeps inner) (h : m.Runs ground (current :: callers)) {t : Turn}
    (ht : (turn inner m (current :: callers)).run Engine.reply e = .ok (t, e')) :
    Attends inner m current callers e t e' := by
  obtain ⟨a, ha⟩ := h.live current List.mem_cons_self
  -- behind the last instruction nothing is asked, in front of any other the engine decides
  rcases turn_cases hinner h ha with ⟨hi, htail⟩ | ⟨i, tail, hi, htail, hturn⟩
  · rcases htail.attends ht with
      ⟨halone, hs, hm, hgone, rfl⟩ | ⟨err, m₁, x₀, e₁, l', rfl, halone, hx, hw, rfl⟩
    · exact .left a t ha hi halone hs hm (hgone rfl)
    · exact .failed err m₁ x₀ e₁ l' halone hx hw
  · have halone_eq : (turn inner m (current :: callers)).detach = tail.detach := by
      rw [hturn]
      rfl
    have hgate : (gate m current callers a tail
        (Engine.reply (.before (siteOf current a i)) e).1).run Engine.reply
        (Engine.reply (.before (siteOf current a i)) e).2 = .ok (t, e') := by
      rw [hturn] at ht
      exact ht
    cases hsusp : e.shouldSuspend (siteOf current a i) with
    | true =>
      -- the counter goes back to the instruction, so that the frame is as it was
      have hreply : Engine.reply (.before (siteOf current a i)) e =
          (Decision.suspend a.pc, e.suspendAt (siteOf current a i)) := by
        simp only [Engine.reply, hsusp, if_true]
        rfl
      rw [hreply] at hgate
      simp only [gate, run_parkAll, setFrame_self ha] at hgate
      cases hgate
      exact .held a i ha hi hsusp
    | false =>
      have hreply : Engine.reply (.before (siteOf current a i)) e =
          (Decision.proceed, e.passBy (siteOf current a i)) := by
        simp only [Engine.reply, hsusp, if_false, Bool.false_eq_true]
        rfl
      rw [hreply] at hgate
      have hwork := Engine.works_passBy e (siteOf current a i)
      rcases htail.attends hgate with
        ⟨halone, hs, hm, hgone, rfl⟩ | ⟨err, m₁, x₀, e₁, l', rfl, halone, hx, hw, rfl⟩
      · exact .passed a i t ha hi hsusp (halone_eq.trans halone) hs hm hgone
      · exact .failed err m₁ x₀ e₁ l' (halone_eq.trans halone) hx (hwork.trans hw)

/-- A frame that is to be held up is held up. -/
theorem turn_suspended {a : Activation} {i : Instruction} {t : Turn} (ha : m.frame? current = some a)
    (hi : a.closure.proto.instructions[a.pc]? = some i)
    (hheld : e.shouldSuspend (siteOf current a i) = true)
    (hturn : (turn inner m (current :: callers)).run Engine.reply e = .ok (t, e')) :
    t.error? = none := by
  have hsite : e.shouldSuspend
      { frame := current, file := a.closure.file, nextPc := a.pc + 1,
        line := a.closure.proto.lineAt a.pc, opcode := i.code, coroutineResuming := false } = true :=
    hheld
  simp only [turn, ha, hi, run_ask, Engine.reply, hsite, if_true, run_parkAll, run_done] at hturn
  cases hturn
  rfl

end Turns

/-! ### Runs -/

/-- **How a run under the debugger ends**, where `Alone` says what it comes to without one. -/
inductive Ends (Alone : RunResult × Machine → Prop) (ground : SortedMap FrameId Activation)
    (m : Machine) (e : Engine) : RunResult × Machine → Engine → Prop where
  /-- it was held up, and what is left of the run leads where the whole run leads -/
  | held (m' : Machine) (e₁ : Engine) (current : FrameId) (callers : List FrameId) (a : Activation)
    (i : Instruction) (runs : m'.Runs ground (current :: callers)) (grows : m.Grows m')
    (works : e.Works e₁) (held : e₁.shouldSuspend (siteOf current a i) = true)
    (rest : ∀ k x, (run k (current :: callers) m').detach = .ok x → Alone x) :
    Ends Alone ground m e (.ok .suspended, m') (e₁.hold (siteOf current a i) callers)
  /-- it came to an end that is alike -/
  | ended (x x₀ : RunResult × Machine) (e₁ : Engine) (l' : ErrorLog) (alone : Alone x₀)
    (alike : Alike e.errors x x₀ l') (works : e.Works e₁) (frames : x.2.frames = ground)
    (bounded : x.2.Bounded) (grows : m.Grows x.2) :
    Ends Alone ground m e x { e₁ with errors := l' }

section Runs

variable {m m₁ : Machine} {ground : SortedMap FrameId Activation} {stack : List FrameId}
  {e e₁ e' : Engine} {x : RunResult × Machine}

theorem Ends.mono {Alone Alone₁ : RunResult × Machine → Prop} (h : Ends Alone₁ ground m₁ e₁ x e')
    (hw : e.Works e₁) (hg : m.Grows m₁) (himp : ∀ y, Alone₁ y → Alone y) :
    Ends Alone ground m e x e' := by
  have herrors : e₁.errors = e.errors := by
    obtain ⟨_, _, _, rfl⟩ := hw
    rfl
  cases h with
  | held m' e₂ current callers a i runs grows works held rest =>
    exact .held m' e₂ current callers a i runs (hg.trans grows) (hw.trans works) held
      fun k y hy => himp y (rest k y hy)
  | ended x x₀ e₂ l' alone alike works frames bounded grows =>
    exact .ended x x₀ e₂ l' (himp x₀ alone) (herrors ▸ alike) (hw.trans works) frames bounded
      (hg.trans grows)

/-- A run that completed leaves the error log alone. -/
theorem Ends.of_completed {Alone : RunResult × Machine → Prop} {values : List Value}
    (hw : e.Works e') (alone : Alone (.ok (.completed values), m₁)) (frames : m₁.frames = ground)
    (bounded : m₁.Bounded) (grows : m.Grows m₁) :
    Ends Alone ground m e (.ok (.completed values), m₁) e' := by
  have hsame : { e' with errors := e.errors } = e' := by
    obtain ⟨_, _, _, rfl⟩ := hw
    rfl
  rw [← hsame]
  exact .ended _ _ e' e.errors alone (.completed values m₁) hw frames bounded grows

/-- **A run under the debugger ends like the run without one**, or is held up on the way. -/
theorem run_attends {fuel : Nat} (h : m.Runs ground stack) (hne : stack ≠ [])
    (hrun : (run fuel stack m).run Engine.reply e = .ok (x, e')) :
    Ends (fun y => ∃ k, (run k stack m).detach = .ok y) ground m e x e' := by
  -- turn by turn, with the engine that the turns so far have left
  induction fuel generalizing stack m e with
  | zero => cases hrun
  | succ fuel ih =>
    rw [run_succ] at hrun
    obtain ⟨t, e₁, hturn, hrest⟩ := run_bind_eq_ok.mp hrun
    obtain ⟨current, callers, rfl⟩ := List.exists_cons_of_ne_nil hne
    have hinner := innerKeeps_call fuel
    -- a turn that was not interrupted: the rest of the run is behind it
    have hpassed : ∀ e₁, e.Works e₁ → t.error? = none →
        (turn (fun f args m => (call fuel f args m).detach) m (current :: callers)).detach = .ok t →
        (follow fuel t).run Engine.reply e₁ = .ok (x, e') →
        Ends (fun y => ∃ k, (run k (current :: callers) m).detach = .ok y) ground m e x e' := by
      intro e₁ hwork hsuccess halone hrest
      obtain ⟨horderly, hgrows⟩ := turn_keeps hinner h hne halone
      cases t with
      | goOn stack' m₁ =>
        -- what the rest comes to, the turn and the rest come to
        refine (ih horderly.2 horderly.1 hrest).mono hwork hgrows fun y hy => ?_
        obtain ⟨k, hk⟩ := hy
        exact ⟨_, detach_run_goOn halone hk⟩
      | finish result m₁ =>
        cases hrest
        cases result with
        | error err => cases hsuccess
        | ok outcome =>
          cases outcome with
          | suspended => exact absurd rfl horderly.1
          | completed values =>
            exact .of_completed hwork ⟨_, detach_run_finish halone⟩ horderly.2.1 horderly.2.2 hgrows
    cases turn_attends hinner h hturn with
    | held a i ha hi hheld =>
      cases hrest
      -- nothing ran, so that what is left is the whole run
      exact .held m e current callers a i h (.refl m) (.refl e) hheld fun k y hy => ⟨k, hy⟩
    | passed a i _ ha hi hpasses halone hsuccess =>
      have hwork := (Engine.works_passBy e (siteOf current a i)).trans
        (Engine.works_instructionDone _ current i.code)
      exact hpassed _ hwork hsuccess halone hrest
    | left a _ ha hi halone hsuccess =>
      exact hpassed _ (Engine.works_instructionDone e current Op.returnCode) hsuccess halone hrest
    | failed err m₁ y₀ e₂ l' halone halike hwork =>
      cases hrest
      -- alone the run fails as well, and leaves the same frames
      obtain ⟨horderly, hgrows⟩ := turn_keeps hinner h hne halone
      obtain ⟨hframes, hfunctions, hnext⟩ := halike.frames
      have hgrows' : m.Grows m₁ := hgrows.trans (.of_eq hfunctions hnext)
      have hrun : ∃ k, (run k (current :: callers) m).detach = .ok y₀ :=
        ⟨_, detach_run_finish halone⟩
      exact .ended _ y₀ e₂ l' hrun halike hwork
        (hframes.trans horderly.2.1) (horderly.2.2.of_frames hframes (.of_eq hfunctions hnext)) hgrows'

/-! ### Calls -/

/-- The call of a host function is never held up, since nobody watches its work. -/
theorem hostCall_attends {inner : InnerCall} (hinner : InnerKeeps inner) {body : Host} (hb : m.Bounded)
    (h : (hostCall inner body m).run Engine.reply e = .ok (x, e')) :
    Ends (fun y => (hostCall inner body m).detach = .ok y) m.frames m e x e' := by
  obtain ⟨result, m₁, r, hbody, hrestamp, rfl⟩ := hostCall_eq_ok.mp h
  obtain ⟨hframes, hgrows⟩ := host_run_keeps hinner body hb hbody
  have hbounded := hb.of_frames hframes hgrows
  -- without a debugger the host function does the same work
  have halone : ∀ r, (restamp result).detach = .ok r →
      (hostCall inner body m).detach = .ok (r.map Outcome.completed, m₁) :=
    fun r hr => detach_hostCall_eq_ok.mpr ⟨result, m₁, r, hbody, hr, rfl⟩
  -- an error without an index is raised anew and gets one, everything else is passed on
  rcases restamp_cases result with ⟨hsame, hindexed⟩ | ⟨message, passed, rfl, hraise⟩
  · have hdetached := halone result (by rw [hsame]; rfl)
    rw [hsame] at hrestamp
    cases hrestamp
    cases result with
    | ok values => exact .of_completed (.refl e) hdetached hframes hbounded hgrows
    | error err =>
      cases err with
      | host err =>
        exact .ended _ _ e e.errors hdetached (.host err m₁) (.refl e) hframes hbounded hgrows
      | runtime err =>
        have hindex : err.index ≠ none := by
          obtain ⟨message, passed, index⟩ := err
          intro hnone
          cases hnone
          exact hindexed message passed rfl
        exact .ended _ _ e e.errors hdetached (.foreign err err rfl rfl hindex m₁ m₁.traceback)
          (.refl e) hframes hbounded hgrows
  · have hdetached := halone (.error (.runtime { message })) (by rw [hraise]; rfl)
    rw [hraise] at hrestamp
    cases hrestamp
    exact .ended _ _ e _ hdetached (.indexed message [] e.lastExecuted m₁) (.refl e) hframes hbounded
      hgrows

/-- **A call under the debugger ends like the call without one**, or is held up on the way. -/
theorem call_attends {fuel : Nat} {f : Value} {args : List Value} (hb : m.Bounded)
    (hcall : (call fuel f args m).run Engine.reply e = .ok (x, e')) :
    Ends (fun y => ∃ k, (call k f args m).detach = .ok y) m.frames m e x e' := by
  cases fuel with
  | zero => cases hcall
  | succ fuel =>
    cases hf : m.callable? f with
    | none =>
      -- what is not callable fails alone in the same way
      have halone : (call (fuel + 1) f args m).detach =
          .ok (.error (.runtime { message := callFault f }), m) := by
        rw [call_none hf]
        rfl
      rw [call_none hf] at hcall
      cases hcall
      exact .ended _ _ e _ ⟨fuel + 1, halone⟩ (.indexed (callFault f) [] e.lastExecuted m) (.refl e)
        rfl hb (.refl m)
    | some callable =>
      cases callable with
      | closure closure =>
        have hfits := fits_of_run hf hcall
        rw [call_closure hf hfits] at hcall
        have hrun := run_attends (Runs.entered hb closure args) (by simp) hcall
        -- one more unit of the budget is spent on the call itself
        refine hrun.mono (.refl e) (Grows.enter m closure args) ?_
        rintro y ⟨k, hk⟩
        refine ⟨k + 1, ?_⟩
        rw [call_closure hf hfits]
        exact hk
      | host body =>
        rw [call_host hf] at hcall
        refine (hostCall_attends (innerKeeps_call fuel) hb hcall).mono (.refl e) (.refl m) ?_
        intro y hy
        refine ⟨fuel + 1, ?_⟩
        rw [call_host hf]
        exact hy

/-! ### Rebuilding a call chain -/

/-- What is done with the frames that were taken back: if all of them are live, they run. -/
def enterAgain (fuel : Nat) (m : Machine) :
    Except ExecError (List FrameId) → Attended (RunResult × Machine)
  | .error e => .done (.error e, m)
  | .ok stack =>
    match stack.reverse.find? fun id => (m.frame? id).isNone with
    | some id => .done (.error (.host { message := "frame " ++ toString id ++ " is not live" }), m)
    | none => run fuel stack m

theorem runFrame_eq (fuel : Nat) (frame : FrameId) (m : Machine) :
    runFrame fuel frame m = (rebuild fuel [frame]).bind (enterAgain fuel m) := by
  unfold runFrame
  refine congrArg _ (funext fun r => ?_)
  cases r <;> rfl

theorem enterAgain_live {fuel : Nat} {stack : List FrameId}
    (hlive : ∀ f ∈ stack, ∃ a, m.frame? f = some a) :
    enterAgain fuel m (.ok stack) = run fuel stack m := by
  have hfind : stack.reverse.find? (fun id => (m.frame? id).isNone) = none := by
    refine List.find?_eq_none.mpr fun f hf => ?_
    obtain ⟨a, ha⟩ := hlive f (List.mem_reverse.mp hf)
    simp [ha]
  unfold enterAgain
  dsimp only
  rw [hfind]

/-- Frames that were taken back run, or nothing happens. -/
theorem enterAgain_cases (fuel : Nat) (m : Machine) (stack : List FrameId) :
    enterAgain fuel m (.ok stack) = run fuel stack m ∨
      ∃ e, enterAgain fuel m (.ok stack) = .done (.error e, m) := by
  unfold enterAgain
  dsimp only
  split
  · exact .inr ⟨_, rfl⟩
  · exact .inl rfl

/-- All entries that are still parked are taken back, and then the program runs again. -/
theorem run_rebuild {n : Nat} {frames taken : List FrameId} {r : Except ExecError (List FrameId)}
    (hs : e.status = .resuming)
    (h : (rebuild n taken).run Engine.reply (e.handOver (frames.map .call)) = .ok (r, e')) :
    r = .ok (frames.reverse ++ taken) ∧ e' = e.handOver [] := by
  induction frames generalizing n taken e with
  | nil =>
    -- the last entry was handed back, so that the engine hands out no more
    have hrunning : (e.handOver []).status = .running := by rw [Engine.handOver_nil hs]
    cases n with
    | zero => cases h
    | succ n =>
      simp only [rebuild, run_ask, Engine.reply, List.map_nil,
        Engine.takeResume_running hrunning] at h
      cases h
      exact ⟨rfl, rfl⟩
  | cons f frames ih =>
    cases n with
    | zero => cases h
    | succ n =>
      -- the next entry is the frame just inside, which goes on top of those taken
      rw [List.map_cons, Engine.handOver_cons] at h
      simp only [rebuild, run_ask, Engine.reply, Engine.takeResume_cons hs] at h
      obtain ⟨hr, he⟩ := ih hs h
      rw [List.reverse_cons, List.append_assoc]
      exact ⟨hr, he⟩

/-- **Entering a call chain again is going on with its frames.** -/
theorem runFrame_run {fuel : Nat} {outer : FrameId} {frames : List FrameId}
    (hs : e.status = .resuming) (hlive : ∀ f ∈ outer :: frames, ∃ a, m.frame? f = some a)
    (h : (runFrame fuel outer m).run Engine.reply (e.handOver (frames.map .call)) = .ok (x, e')) :
    (run fuel (outer :: frames).reverse m).run Engine.reply (e.handOver []) = .ok (x, e') := by
  rw [runFrame_eq] at h
  obtain ⟨r, e₁, hrebuild, hrest⟩ := run_bind_eq_ok.mp h
  obtain ⟨rfl, rfl⟩ := run_rebuild hs hrebuild
  have hstack : frames.reverse ++ [outer] = (outer :: frames).reverse := by simp
  rw [hstack, enterAgain_live fun f hf => hlive f (List.mem_reverse.mp hf)] at hrest
  exact hrest

end Runs

end BytecodeDebugger.Machine
