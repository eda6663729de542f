import BytecodeDebugger.Proofs.Engine.Works
import BytecodeDebugger.Proofs.Session.Chronicle

/-!
# Invariants of sessions

An invariant of sessions speaks about everything that happened so far and about the session as it is.
The triple `Chronicle.Meets S past c Q` is how it is carried through a chronicle: whatever happened by
any moment of `c`, together with what is past, satisfies `S`, and when `c` has an outcome it
satisfies `Q` with everything that happened.

To prove that it holds whatever is done, it is enough to look at the few pieces of code that all
operations are made of: a tweak, a report, the announcement of a stop, the start of a call and the
re-entry into a parked call chain. `Steady` lists these obligations, and

* `Steady.performAll` — the invariant holds after any operations, and at every moment on the way
  what happened so far is as it should be;
* `Steady.undertakeAll` — the same over the machine, launches included.

Both speak about a session at rest (`AtEase`): there the invariant holds, and no call waits while the
program runs. That part is the same for all invariants and for every interpreter.
-/

namespace BytecodeDebugger

namespace Chronicle

variable {σ α β : Type} {S : List Happening → Prop} {past : List Happening}

/-! ### Triples -/

/-- **`c.Meets S past Q`**: at every moment of `c` what happened so far satisfies `S`, and an outcome
satisfies `Q`. -/
structure Meets (S : List Happening → Prop) (past : List Happening) (c : Chronicle α)
    (Q : List Happening → α → Prop) : Prop where
  always : ∀ h, h <+: c.happenings → S (past ++ h)
  ends : ∀ a, c.outcome = .ok a → Q (past ++ c.happenings) a

namespace Meets

variable {c : Chronicle α} {f : α → Chronicle β} {Q Q' : List Happening → α → Prop}
  {R : List Happening → β → Prop}

theorem silent {outcome : Except Stop α} (hs : S past) (hq : ∀ a, outcome = .ok a → Q past a) :
    (Chronicle.silent outcome).Meets S past Q where
  always h hh := by
    have hnil : h = [] := List.prefix_nil.mp hh
    rw [hnil, List.append_nil]
    exact hs
  ends a ha := by
    change Q (past ++ []) a
    rw [List.append_nil]
    exact hq a ha

theorem pure {a : α} (hs : S past) (hq : Q past a) :
    (Pure.pure a : Chronicle α).Meets S past Q :=
  .silent hs fun b hb => by cases hb; exact hq

/-- A triple of two parts. -/
theorem bind (hc : c.Meets S past Q) (hf : ∀ past a, Q past a → (f a).Meets S past R) :
    (c >>= f).Meets S past R := by
  change (c.bind f).Meets S past R
  unfold Chronicle.bind
  cases ho : c.outcome with
  | error reason => exact ⟨hc.always, fun b hb => by cases hb⟩
  | ok a =>
    have hrest := hf _ a (hc.ends a ho)
    refine ⟨fun h hh => ?_, fun b hb => ?_⟩
    · -- a moment lies in the first part, or behind it
      obtain ⟨t, ht⟩ := hh
      rcases List.append_eq_append_iff.mp ht with ⟨a', hfirst, -⟩ | ⟨b', rfl, hsecond⟩
      · exact hc.always h ⟨a', hfirst.symm⟩
      · rw [← List.append_assoc]
        exact hrest.always b' ⟨t, hsecond.symm⟩
    · rw [← List.append_assoc]
      exact hrest.ends b hb

theorem note {happening : Happening} {Q : List Happening → Unit → Prop} (hs : S past)
    (hs' : S (past ++ [happening])) (hq : Q (past ++ [happening]) ()) :
    (Chronicle.note happening).Meets S past Q where
  always h hh := by
    rcases List.prefix_cons_iff.mp hh with rfl | ⟨t, rfl, ht⟩
    · rw [List.append_nil]
      exact hs
    · rw [List.prefix_nil.mp ht]
      exact hs'
  ends _ _ := hq

/-- Running the interpreter: what every answer of the engine keeps holds of the engine whenever it is
asked something, and at the end. -/
theorem attend {P : Engine → Prop} {s : Session σ} {entry : σ → Attended (α × σ)}
    (keep : ∀ call e, P e → P (Engine.reply call e).2) (hs : P s.engine)
    (hS : ∀ questions : List (Engine × HookCall), (∀ q ∈ questions, P q.1) →
      S (past ++ questions.map fun q => .consulted q.1 q.2)) :
    (Chronicle.attend s entry).Meets S past fun h p => P p.2.engine ∧
      ∃ questions : List (Engine × HookCall), h = past ++ questions.map fun q => .consulted q.1 q.2 := by
  -- a moment of the run is a prefix of the questions it asks
  have hasked := Attended.consultations_preserves keep (entry s.vm) hs
  constructor
  · intro moment hmoment
    obtain ⟨questions, hpre, rfl⟩ := List.prefix_map_iff.mp hmoment
    exact hS questions fun q hq => hasked q (hpre.subset hq)
  · rintro ⟨a, s'⟩ hout
    exact ⟨Attended.run_preserves keep _ hs (Session.attend_eq_ok.mp hout), _, rfl⟩

end Meets

/-! ### Calls that wait -/

/-- No answer of the engine changes what waits. -/
theorem waiting_reply (call : HookCall) (e : Engine) :
    (Engine.reply call e).2.waiting = e.waiting := by
  cases call with
  | before site =>
    unfold Engine.reply
    dsimp only
    split
    · exact Engine.waiting_transition _ _ _
    · rfl
  | after frame pc opcode failure => cases failure <;> rfl
  | park entry => rfl
  | takeResume =>
    change e.takeResume.2.waiting = e.waiting
    -- the last entry changes the status, and nothing touches the queue
    unfold Engine.takeResume
    split
    · split
      · rfl
      · dsimp only
        split
        · exact Engine.waiting_transition _ _ _
        · rfl
    · rfl
  | isResuming => rfl
  | raise message => rfl

theorem waiting_fail (e : Engine) (error : ExecError) (origin : Option StackEntry) :
    (e.fail error origin).2.waiting = e.waiting := by
  obtain ⟨e', ⟨_, _, rfl, -⟩, h⟩ := e.fail_eq error origin
  rw [h]

theorem waiting_attend {s s' : Session σ} {entry : σ → Attended (α × σ)} {a : α}
    (h : s.attend entry = .ok (a, s')) : s'.engine.waiting = s.engine.waiting := by
  exact Attended.run_preserves (P := fun e => e.waiting = s.engine.waiting)
    (fun call e he => (waiting_reply call e).trans he) _ rfl (Session.attend_eq_ok.mp h)

/-- A call that ended leaves what waited behind it. -/
theorem waiting_start {I : Interpreter σ} {s s' : Session σ} {call : DeferredCall}
    {waiting : List DeferredCall} (h : (start I s call waiting).outcome = .ok s') :
    s'.engine.waiting = waiting := by
  rw [outcome_start] at h
  cases hattend : (s.setEngine { s.engine with waiting }).attend
      (I.call call.function call.args) with
  | error reason =>
    rw [hattend] at h
    cases h
  | ok p =>
    obtain ⟨result, s₁⟩ := p
    -- the queue is set before the call and stays that way, also when the error is reported
    have hwaiting : s₁.engine.waiting = waiting := waiting_attend hattend
    rw [hattend] at h
    cases result with
    | ok outcome =>
      cases h
      exact hwaiting
    | error error =>
      cases h
      exact (waiting_fail s₁.engine error none).trans hwaiting

/-- Calls wait while the program stands still. -/
theorem drainCalls_paused (I : Interpreter σ) {s : Session σ} (hs : s.engine.status ≠ .running)
    (calls : List DeferredCall) : drainCalls I s calls = pure s := by
  cases calls with
  | nil => rfl
  | cons call calls => exact if_neg hs

end Chronicle

/-! ### Steady invariants -/

section

variable {σ : Type} {I : Interpreter σ} {reports : Prop} {S : List Happening → Prop}
  {M : List Happening → Session σ → Prop} {h : List Happening} {s : Session σ}

/-- **What has to be proved about an invariant.** It need not survive reports of errors if `reports`
does not hold. -/
structure Steady (I : Interpreter σ) (reports : Prop) (S : List Happening → Prop)
    (M : List Happening → Session σ → Prop) : Prop where
  safe : ∀ {h s}, M h s → S h
  tweak : ∀ {h s e}, M h s → s.engine.Tweaks e → M h (s.setEngine e)
  report : ∀ {h s e}, reports → M h s → s.engine.Reports e → M h (s.setEngine e)
  announce : ∀ {h s} (location : SourceLocation), M h s → s.engine.status = .suspending →
    M h (s.enterSuspended I location)
  submit : ∀ {h s} (call : DeferredCall), M h s →
    M (h ++ [.submitted call])
      (s.setEngine { s.engine with waiting := s.engine.waiting ++ [call] })
  start : ∀ {h s} {call : DeferredCall} {waiting : List DeferredCall}, M h s →
    s.engine.status = .running → s.engine.waiting = call :: waiting →
    (Chronicle.start I s call waiting).Meets S h M
  reenter : ∀ {h s}, M h s → (Chronicle.reenter I s).Meets S h M

/-- **An invariant between operations**: no call waits while the program runs. -/
structure AtEase (M : List Happening → Session σ → Prop) (h : List Happening) (s : Session σ) :
    Prop where
  holds : M h s
  idle : s.engine.status = .running → s.engine.waiting = []

namespace Steady

open Chronicle

variable (hM : Steady I reports S M)

include hM

theorem pure_atEase (hs : AtEase M h s) : (pure s : Chronicle (Session σ)).Meets S h (AtEase M) :=
  .pure (hM.safe hs.holds) hs

/-- Waiting calls are made until none is left or one of them is held up. -/
theorem drainCalls {calls : List DeferredCall} (hs : M h s) (hw : s.engine.waiting = calls) :
    (drainCalls I s calls).Meets S h (AtEase M) := by
  induction calls generalizing h s with
  | nil => exact hM.pure_atEase ⟨hs, fun _ => hw⟩
  | cons call calls ih =>
    unfold Chronicle.drainCalls
    -- either the program runs and the next call is started, or the rest stays in the queue
    split
    · next hrunning =>
      have hstart := hM.start hs hrunning hw
      have hpost : (Chronicle.start I s call calls).Meets S h
          fun h s => M h s ∧ s.engine.waiting = calls :=
        ⟨hstart.always, fun s' hs' => ⟨hstart.ends s' hs', waiting_start hs'⟩⟩
      exact hpost.bind fun h s hs => ih hs.1 hs.2
    · next hrunning => exact hM.pure_atEase ⟨hs, fun hr => absurd hr hrunning⟩

theorem resumeThread (hs : M h s) : (resumeThread I s).Meets S h (AtEase M) :=
  (hM.reenter hs).bind fun _ _ hs => hM.drainCalls hs rfl

theorem tweak_atEase {e : Engine} (hs : AtEase M h s) (he : s.engine.Tweaks e) :
    AtEase M h (s.setEngine e) := by
  refine ⟨hM.tweak hs.holds he, ?_⟩
  obtain ⟨_, _, _, _, _, _, _, _, rfl, -⟩ := he
  exact hs.idle

theorem report_atEase {e : Engine} (hr : reports) (hs : AtEase M h s) (he : s.engine.Reports e) :
    AtEase M h (s.setEngine e) := by
  refine ⟨hM.report hr hs.holds he, ?_⟩
  obtain ⟨_, _, rfl, -⟩ := he
  exact hs.idle

/-- A command goes on with another way of stepping. -/
theorem command (hs : M h s) (f : Stepping → Stepping) :
    (Chronicle.resumeThread I (s.command f)).Meets S h (AtEase M) :=
  hM.resumeThread (hM.tweak hs (Engine.tweaks_step s.engine _ _))

theorem submits (hs : AtEase M h s) (call : DeferredCall) :
    (Chronicle.submit I s call).Meets S h (AtEase M) := by
  have hsubmit := hM.submit call hs.holds
  unfold Chronicle.submit
  refine .bind (.note (Q := fun past _ => past = h ++ [.submitted call]) (hM.safe hs.holds)
    (hM.safe hsubmit) rfl) ?_
  rintro past - rfl
  split
  · next hrunning =>
    -- nothing waits, so that the call is the first to wait, and then it is started
    have hidle := hs.idle hrunning
    rw [hidle, List.nil_append] at hsubmit
    have hstart := hM.start hsubmit hrunning rfl
    have hsame : Chronicle.start I (s.setEngine { s.engine with waiting := [call] }) call [] =
        Chronicle.start I s call [] := rfl
    rw [hsame] at hstart
    rw [hidle]
    exact ⟨hstart.always, fun s₁ hs₁ => ⟨hstart.ends s₁ hs₁, fun _ => waiting_start hs₁⟩⟩
  · next hrunning => exact hM.pure_atEase ⟨hsubmit, fun hr => absurd hr hrunning⟩

theorem resumes (hs : AtEase M h s) : (Chronicle.resume I s).Meets S h (AtEase M) :=
  (hM.command hs.holds Stepping.resume).bind fun _ _ hs =>
    hM.pure_atEase (hM.tweak_atEase hs (Engine.tweaks_emit _ rfl))

theorem runTask (hs : AtEase M h s) (task : TimedTask) :
    (Chronicle.runTask I s task).Meets S h (AtEase M) := by
  cases task with
  | enterSuspended epoch location =>
    unfold Chronicle.runTask
    dsimp only
    split
    · next hdue =>
      refine hM.pure_atEase ⟨hM.announce location hs.holds hdue.2, fun hr => ?_⟩
      -- from suspending the status becomes suspended
      have hstatus : (s.enterSuspended I location).engine.status = .suspended := by
        unfold Session.enterSuspended Session.setEngine Engine.transition
        dsimp only
        rw [if_pos (show StatusRequest.isAllowed _ = true by rw [hdue.2]; rfl)]
        split <;> rfl
      rw [hstatus] at hr
      cases hr
    · exact hM.pure_atEase hs
  | autoStep generation =>
    unfold Chronicle.runTask
    dsimp only
    -- an automatic step is a step like any other, unless it is out of date
    split
    · exact hM.command hs.holds Stepping.stepIn
    · exact hM.pure_atEase hs

theorem pollAt (hs : AtEase M h s) (now : Time) (fuel : Nat) :
    (Chronicle.pollAt I now fuel s).Meets S h (AtEase M) := by
  -- over the tasks that are due, each at ease behind the others
  induction fuel generalizing h s with
  | zero =>
    refine ⟨fun h' hh => ?_, fun a ha => by cases ha⟩
    rw [List.prefix_nil.mp hh, List.append_nil]
    exact hM.safe hs.holds
  | succ fuel ih =>
    unfold Chronicle.pollAt
    split
    · exact hM.pure_atEase hs
    · next task timers _ =>
      have htimers := hM.tweak_atEase hs (Engine.tweaks_timers s.engine timers)
      exact (hM.runTask htimers task).bind fun _ _ hs => ih hs

/-- **Every operation keeps the invariant.** -/
theorem perform (hs : AtEase M h s) (op : Operation) (hop : op.isReport = true → reports) :
    (Chronicle.perform I s op).Meets S h (AtEase M) := by
  cases op with
  | submit call => exact hM.submits hs call
  | stepIn => exact hM.command hs.holds _
  | stepOver => exact hM.command hs.holds _
  | stepOut =>
    change (Chronicle.stepOut I s).Meets S h (AtEase M)
    unfold Chronicle.stepOut
    split
    · exact hM.command hs.holds _
    · exact hM.resumes hs
  | resume => exact hM.resumes hs
  | autoStep =>
    -- switched on, it takes the first step at once
    have htoggle : AtEase M h (s.command Stepping.toggleAuto) :=
      hM.tweak_atEase hs (Engine.tweaks_step s.engine _ _)
    unfold Chronicle.perform
    dsimp only
    split
    · exact hM.command htoggle.holds Stepping.stepIn
    · exact hM.pure_atEase htoggle
  | poll budget => exact hM.pollAt hs _ budget
  | pause => exact hM.pure_atEase (hM.tweak_atEase hs (Engine.tweaks_pause _))
  | toggleBreakpoint file line =>
    refine .silent (hM.safe hs.holds) fun s' hs' => ?_
    rw [Session.eq_of_toggle hs']
    exact hM.tweak_atEase hs (Engine.tweaks_toggledBreakpoint _ file line)
  | toggleStops => exact hM.pure_atEase (hM.tweak_atEase hs (Engine.tweaks_toggleStops _))
  | setClock now => exact hM.pure_atEase (hM.tweak_atEase hs (Engine.tweaks_setClock _ now))
  | fileLoaded jsonUrl path? fetch =>
    exact hM.pure_atEase (hM.tweak_atEase hs (Engine.tweaks_fileLoaded _ jsonUrl path? fetch))
  | takeUnsaved => exact hM.pure_atEase (hM.tweak_atEase hs (Engine.tweaks_takeUnsaved _))
  | reportUncaught error =>
    exact hM.pure_atEase (hM.report_atEase (hop rfl) hs (Engine.reports_uncaught _ error))
  | reportText message =>
    exact hM.pure_atEase (hM.report_atEase (hop rfl) hs (Engine.reports_text _ message))

/-- **Any operations keep the invariant.** -/
theorem performAll (hs : AtEase M h s) (ops : List Operation)
    (hops : ∀ op ∈ ops, op.isReport = true → reports) :
    (Chronicle.performAll I s ops).Meets S h (AtEase M) := by
  induction ops generalizing h s with
  | nil => exact hM.pure_atEase hs
  | cons op ops ih =>
    refine (hM.perform hs op (hops op List.mem_cons_self)).bind fun _ _ hs => ih hs ?_
    exact fun op hop => hops op (List.mem_cons_of_mem _ hop)

end Steady

end

/-! ### Over the machine -/

namespace Steady

variable {fuel : Nat} {S : List Happening → Prop} {M : List Happening → Session Machine → Prop}
  {h : List Happening} {s : Session Machine}

/-- A launch loads a chunk and submits the call of its main function. -/
theorem launches (hM : Steady (Machine.interpreter fuel) True S M)
    (hload : ∀ {h e vm} (chunk : Chunk) (file : String), M h ⟨e, vm⟩ → M h ⟨e, (vm.load chunk file).2⟩)
    (hs : AtEase M h s) (program : Program) (stopOnEntry : Bool) :
    (Chronicle.launch fuel program stopOnEntry s).Meets S h (AtEase M) := by
  unfold Chronicle.launch
  dsimp only
  -- announcing the file is an adjustment, and loading it is up to the invariant
  have hfile := hM.tweak_atEase hs (Engine.tweaks_fileLoaded s.engine program.file
    program.chunk.sourcePath fun _ => program.source)
  have hloaded : AtEase M h ⟨(s.engine.fileLoaded program.file program.chunk.sourcePath
      fun _ => program.source).2, (s.vm.load program.chunk program.file).2⟩ :=
    ⟨hload program.chunk program.file hfile.holds, hfile.idle⟩
  cases stopOnEntry with
  | false => exact hM.submits hloaded _
  | true => exact hM.submits (hM.tweak_atEase hloaded (Engine.tweaks_pause _)) _

/-- **Whatever is done over the machine keeps the invariant.** -/
theorem undertakeAll (hM : Steady (Machine.interpreter fuel) True S M)
    (hload : ∀ {h e vm} (chunk : Chunk) (file : String), M h ⟨e, vm⟩ → M h ⟨e, (vm.load chunk file).2⟩)
    (hs : AtEase M h s) (deeds : List Deed) :
    (Chronicle.undertakeAll fuel s deeds).Meets S h (AtEase M) := by
  induction deeds generalizing h s with
  | nil => exact hM.pure_atEase hs
  | cons deed deeds ih =>
    have hdeed : (Chronicle.undertake fuel s deed).Meets S h (AtEase M) := by
      cases deed with
      | operation op => exact hM.perform hs op fun _ => trivial
      | launch program stopOnEntry => exact hM.launches hload hs program stopOnEntry
    exact hdeed.bind fun _ _ hs => ih hs

end Steady

end BytecodeDebugger
