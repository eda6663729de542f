import BytecodeDebugger.Proofs.Session.Advance

/-!
# Between two commands

While no command tells the program how to go on, a session still changes: the host submits calls,
breakpoints are toggled, files are loaded, errors are reported, the clock is set, and polls announce
stops. None of this changes how the program is stepped, and as long as the steps are not automatic,
no poll enters the program again. Only a call that is submitted, or that was waiting, may run code.

`Undisturbed` lists what has to be proved about an invariant for this; `Undisturbed.undertakeAll`
concludes that it holds until the next command.
-/

namespace BytecodeDebugger

/-- The operation tells the program how to go on. -/
def Operation.directs : Operation → Bool
  | .stepIn => true
  | .stepOver => true
  | .stepOut => true
  | .resume => true
  | .autoStep => true
  | _ => false

/-- The operation runs no code and asks for no stop. -/
def Operation.isAside : Operation → Bool
  | .toggleBreakpoint .. => true
  | .toggleStops => true
  | .setClock _ => true
  | .fileLoaded .. => true
  | .takeUnsaved => true
  | .reportUncaught _ => true
  | .reportText _ => true
  | _ => false

/-- A launch only makes a call. -/
def Deed.directs : Deed → Bool
  | .operation op => op.directs
  | .launch _ _ => false

/-! ### Changes that no run notices -/

/-- **A change aside**: it concerns neither the status, nor the frames, nor how they are stepped. -/
structure Engine.Aside (e e' : Engine) : Prop where
  status : e'.status = e.status
  parked : e'.parked = e.parked
  barriers : e'.barriers = e.barriers
  stepping : e'.stepping = e.stepping
  config : e'.config = e.config

namespace Engine

variable {e e' e'' : Engine}

theorem Aside.refl (e : Engine) : e.Aside e := ⟨rfl, rfl, rfl, rfl, rfl⟩

theorem Aside.trans (h : e.Aside e') (h' : e'.Aside e'') : e.Aside e'' :=
  ⟨h'.status.trans h.status, h'.parked.trans h.parked, h'.barriers.trans h.barriers,
    h'.stepping.trans h.stepping, h'.config.trans h.config⟩

theorem Reports.aside (h : e.Reports e') : e.Aside e' := by
  obtain ⟨_, _, rfl, -⟩ := h
  exact ⟨rfl, rfl, rfl, rfl, rfl⟩

theorem aside_toggledBreakpoint (e : Engine) (file : String) (line : Nat) :
    e.Aside (e.toggledBreakpoint file line) := by
  have hsame : ∀ e : Engine, e.Aside e.toggleStops.2 := fun _ => ⟨rfl, rfl, rfl, rfl, rfl⟩
  refine toggledBreakpoint_relates (.refl e) .trans hsame file line ?_
  exact fun isSet breakpoints _ => ⟨rfl, rfl, rfl, rfl, rfl⟩

theorem aside_fileLoaded (e : Engine) (jsonUrl : String) (path? : Option String)
    (fetch : String → Except String String) : e.Aside (e.fileLoaded jsonUrl path? fetch).2 := by
  unfold fileLoaded
  dsimp only
  split <;> exact ⟨rfl, rfl, rfl, rfl, rfl⟩

/-- A stop is asked for already while the program is stepped. -/
theorem aside_pause (h : e.stepping.on = true) : e.Aside e.pause := by
  unfold pause
  split
  · have hstepping : e.stepping.pause = e.stepping := by
      unfold Stepping.pause
      rw [← h]
    exact ⟨rfl, rfl, rfl, hstepping, rfl⟩
  · exact .refl e

end Engine

/-- **An operation aside is a change aside**, behind which nothing happens. -/
theorem Chronicle.perform_aside {σ : Type} (I : Interpreter σ) (s : Session σ) {op : Operation}
    (hop : op.isAside = true) :
    ∃ outcome, Chronicle.perform I s op = .silent outcome ∧
      ∀ s', outcome = .ok s' → ∃ e, s.engine.Aside e ∧ s' = s.setEngine e := by
  have hchange : ∀ {e : Engine}, s.engine.Aside e → ∀ s',
      (.ok (s.setEngine e) : Except Stop (Session σ)) = .ok s' →
        ∃ e, s.engine.Aside e ∧ s' = s.setEngine e := by
    intro e haside s' hs'
    cases hs'
    exact ⟨e, haside, rfl⟩
  cases op with
  | submit | stepIn | stepOver | stepOut | resume | autoStep | pause | poll => cases hop
  | toggleBreakpoint file line =>
    exact ⟨_, rfl, fun s' hs' => ⟨_, Engine.aside_toggledBreakpoint _ file line,
      Session.eq_of_toggle hs'⟩⟩
  | toggleStops | setClock | takeUnsaved => exact ⟨_, rfl, hchange ⟨rfl, rfl, rfl, rfl, rfl⟩⟩
  | fileLoaded jsonUrl path? fetch =>
    exact ⟨_, rfl, hchange (Engine.aside_fileLoaded _ jsonUrl path? fetch)⟩
  | reportUncaught error => exact ⟨_, rfl, hchange (Engine.reports_uncaught _ error).aside⟩
  | reportText message => exact ⟨_, rfl, hchange (Engine.reports_text _ message).aside⟩

/-! ### Invariants -/

section

variable {σ : Type} {I : Interpreter σ} {M : List Happening → Session σ → Prop}
  {h : List Happening} {s : Session σ}

/-- **What has to be proved about an invariant** that is to hold until the next command. -/
structure Undisturbed (I : Interpreter σ) (M : List Happening → Session σ → Prop) : Prop where
  /-- the program is stepped, but not automatically -/
  steps : ∀ {h s}, M h s → s.engine.stepping.on = true ∧ s.engine.stepping.auto = false
  aside : ∀ {h s e}, M h s → s.engine.Aside e → M h (s.setEngine e)
  announce : ∀ {h s} (location : SourceLocation), M h s → s.engine.status = .suspending →
    M h (s.enterSuspended I location)
  submit : ∀ {h s} (call : DeferredCall), M h s → M (h ++ [.submitted call]) s
  start : ∀ {h s s'} {call : DeferredCall} {waiting : List DeferredCall}, M h s →
    s.engine.status = .running → (Chronicle.start I s call waiting).outcome = .ok s' →
    M (h ++ (Chronicle.start I s call waiting).happenings) s'

namespace Undisturbed

open Chronicle

variable (hM : Undisturbed I M)

include hM

theorem starts (hs : M h s) (hrunning : s.engine.status = .running) (call : DeferredCall)
    (waiting : List DeferredCall) :
    (Chronicle.start I s call waiting).Meets (fun _ => True) h M :=
  ⟨fun _ _ => trivial, fun _ hs' => hM.start hs hrunning hs'⟩

/-- Waiting calls are made until none is left or one of them is held up. -/
theorem drainCalls (hs : M h s) (calls : List DeferredCall) :
    (drainCalls I s calls).Meets (fun _ => True) h M := by
  -- over the queue; each call that is started keeps what is claimed for the next one
  induction calls generalizing h s with
  | nil => exact .pure trivial hs
  | cons call calls ih =>
    unfold Chronicle.drainCalls
    split
    · next hrunning => exact (hM.starts hs hrunning call calls).bind fun _ _ hs => ih hs
    · exact .pure trivial hs

theorem submits (hs : M h s) (call : DeferredCall) :
    (Chronicle.submit I s call).Meets (fun _ => True) h M := by
  have hsubmitted := hM.submit call hs
  unfold Chronicle.submit
  refine .bind (.note (Q := fun past _ => past = h ++ [.submitted call]) trivial trivial rfl) ?_
  rintro past - rfl
  split
  · next hrunning => exact hM.starts hsubmitted hrunning call _
  · exact .pure trivial (hM.aside hsubmitted ⟨rfl, rfl, rfl, rfl, rfl⟩)

/-- A poll announces stops, and takes no automatic step. -/
theorem pollAt (hs : M h s) (now : Time) (fuel : Nat) :
    (Chronicle.pollAt I now fuel s).Meets (fun _ => True) h M := by
  induction fuel generalizing h s with
  | zero => exact ⟨fun _ _ => trivial, fun _ hs' => by cases hs'⟩
  | succ fuel ih =>
    unfold Chronicle.pollAt
    split
    · exact .pure trivial hs
    · next task timers _ =>
      have htaken : M h (s.setEngine { s.engine with timers }) :=
        hM.aside hs ⟨rfl, rfl, rfl, rfl, rfl⟩
      refine .bind (Q := M) ?_ fun _ _ hs => ih hs
      -- a due notice is announced, and no step is due while nobody steps
      cases task with
      | enterSuspended epoch location =>
        unfold Chronicle.runTask
        dsimp only
        split
        · next hdue => exact .pure trivial (hM.announce location htaken hdue.2)
        · exact .pure trivial htaken
      | autoStep generation =>
        unfold Chronicle.runTask
        dsimp only
        rw [if_neg fun hdue => by
          have hmanual := (hM.steps htaken).2
          rw [hdue.1] at hmanual
          cases hmanual]
        exact .pure trivial htaken

/-- **Every operation but a command keeps the invariant.** -/
theorem perform (hs : M h s) {op : Operation} (hop : op.directs = false) :
    (Chronicle.perform I s op).Meets (fun _ => True) h M := by
  by_cases hset : op.isAside = true
  · obtain ⟨outcome, hsilent, hends⟩ := Chronicle.perform_aside I s hset
    rw [hsilent]
    refine .silent trivial fun s' hs' => ?_
    obtain ⟨e, haside, rfl⟩ := hends s' hs'
    exact hM.aside hs haside
  · cases op with
    | stepIn | stepOver | stepOut | resume | autoStep => cases hop
    | submit call => exact hM.submits hs call
    | poll budget => exact hM.pollAt hs _ budget
    | pause => exact .pure trivial (hM.aside hs (Engine.aside_pause (hM.steps hs).1))
    | _ => exact absurd rfl hset

end Undisturbed

end

/-! ### Over the machine -/

namespace Undisturbed

variable {fuel : Nat} {M : List Happening → Session Machine → Prop} {h : List Happening}
  {s : Session Machine}

/-- A launch loads a chunk, and makes a call. -/
theorem launches (hM : Undisturbed (Machine.interpreter fuel) M)
    (hload : ∀ {h e vm} (chunk : Chunk) (file : String), M h ⟨e, vm⟩ → M h ⟨e, (vm.load chunk file).2⟩)
    (hs : M h s) (program : Program) (stopOnEntry : Bool) :
    (Chronicle.launch fuel program stopOnEntry s).Meets (fun _ => True) h M := by
  have hloaded : M h ⟨(s.engine.fileLoaded program.file program.chunk.sourcePath
      fun _ => program.source).2, (s.vm.load program.chunk program.file).2⟩ :=
    hload program.chunk program.file (hM.aside hs (Engine.aside_fileLoaded _ _ _ _))
  unfold Chronicle.launch
  dsimp only
  -- to stop on entry is to pause before the main function is submitted
  cases stopOnEntry with
  | false => exact hM.submits hloaded _
  | true => exact hM.submits (hM.aside hloaded (Engine.aside_pause (hM.steps hloaded).1)) _

/-- **Until the next command the invariant holds.** -/
theorem undertakeAll (hM : Undisturbed (Machine.interpreter fuel) M)
    (hload : ∀ {h e vm} (chunk : Chunk) (file : String), M h ⟨e, vm⟩ → M h ⟨e, (vm.load chunk file).2⟩)
    (hs : M h s) {deeds : List Deed} (hdeeds : ∀ deed ∈ deeds, deed.directs = false) :
    (Chronicle.undertakeAll fuel s deeds).Meets (fun _ => True) h M := by
  -- deed by deed; none of them is a command
  induction deeds generalizing h s with
  | nil => exact .pure trivial hs
  | cons deed deeds ih =>
    have hfirst := hdeeds deed List.mem_cons_self
    have hdeed : (Chronicle.undertake fuel s deed).Meets (fun _ => True) h M := by
      cases deed with
      | operation op => exact hM.perform hs hfirst
      | launch program stopOnEntry => exact hM.launches hload hs program stopOnEntry
    exact hdeed.bind fun _ _ hs => ih hs fun d hd => hdeeds d (List.mem_cons_of_mem _ hd)

end Undisturbed

end BytecodeDebugger
