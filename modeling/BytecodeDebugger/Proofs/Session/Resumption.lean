import BytecodeDebugger.Proofs.Session.Evolution
import BytecodeDebugger.Proofs.Session.Reach

/-!
# After a stop the instruction runs

An instruction that was held up is asked about again as soon as the program goes on, under conditions
that are no less eager to stop it. That the program makes progress is due to the barrier of its frame
alone, which has to survive whatever happens in between: breakpoints, calls of the host, reports of
errors, polls that announce the stop. `Resumes` says that it does: whatever is done, every stop in the
history is followed by a visit of the same instruction that is no stop.

Main statements:

* `Resumes.undertakeAll` — so it is after anything that is done to a new session;
* `Resumes.next` — the first visit of a command that lets a session go on, and of an automatic step.
-/

namespace BytecodeDebugger

/-- **What comes after a stop**: the same instruction, and it runs. -/
def Visit.ResumedBy (v u : Visit) : Prop := v.Held → u.site = v.site ∧ ¬u.Held

/-- **The instruction runs first** of all that happens. -/
def Visit.RunsFirst (v : Visit) (h : List Happening) : Prop :=
  ∃ u rest, visited h = u :: rest ∧ u.site = v.site ∧ ¬u.Held

/-- Where no visit but the last is a stop, nothing has to be resumed. -/
theorem Machine.Passing.resumed {bound : Nat} {vs : List Visit} (h : Passing bound vs) :
    vs.IsChain Visit.ResumedBy := h.unheld.imp fun _ _ hunheld hheld => absurd hheld hunheld

/-- **How a session stands after its last visit**: it stopped there, or the visit was no stop and
nothing is parked. -/
def Session.StandsAt (s : Session Machine) (last : Option Visit) : Prop :=
  s.Stands (∀ v ∈ last, ¬v.Held) fun v _ => last = some v

/-- **Where a run leads a session**, it stands. -/
theorem Session.Reaches.standsAt {Way : Nat → Nat → List FrameId → Machine → Prop}
    {Alone : RunResult × Machine → Prop} {tasks : Nat} {past vs : List Visit} {s : Session Machine}
    (h : s.Reaches Way Alone tasks vs) (hpast : vs = [] → ∀ v ∈ past.getLast?, ¬v.Held) :
    s.StandsAt (past ++ vs).getLast? := by
  cases h with
  | stopped n passed v callers _ stops way split unheld =>
    refine .stopped v callers stops ?_
    rw [split, ← List.append_assoc]
    exact List.getLast?_concat
  | free x₀ _ rests alone same unheld =>
    refine .free rests fun v hv => ?_
    -- the last visit is one of the run, or the run has none
    rcases List.eq_nil_or_concat vs with rfl | ⟨vs', u, rfl⟩
    · rw [List.append_nil] at hv
      exact hpast rfl v hv
    · rw [List.concat_eq_append] at unheld hv
      rw [← List.append_assoc, List.getLast?_concat] at hv
      cases hv
      exact unheld v (by simp)

/-! ### The invariant -/

/-- **Every stop so far was resumed** by its own instruction, and the session stands at the last
visit. -/
structure Resumes (h : List Happening) (s : Session Machine) : Prop where
  chain : (visited h).IsChain Visit.ResumedBy
  stands : s.StandsAt (visited h).getLast?

namespace Resumes

variable {h : List Happening} {s : Session Machine}

/-- Further visits, at every moment of what happens. -/
theorem moments {h' moment : List Happening} (hchain : (visited h).IsChain Visit.ResumedBy)
    (hrest : (visited h').IsChain Visit.ResumedBy)
    (hfirst : ∀ v ∈ (visited h).getLast?, ∀ u ∈ (visited h').head?, v.ResumedBy u)
    (hmoment : moment <+: h') : (visited (h ++ moment)).IsChain Visit.ResumedBy := by
  have hall : (visited (h ++ h')).IsChain Visit.ResumedBy := by
    rw [visited_append]
    exact List.isChain_append.mpr ⟨hchain, hrest, hfirst⟩
  obtain ⟨rest, rfl⟩ := hmoment
  rw [← List.append_assoc, visited_append] at hall
  exact (List.isChain_append.mp hall).1

/-- Submitting a call visits nothing. -/
theorem submitted (hs : Resumes h s) (call : DeferredCall) :
    Resumes (h ++ [.submitted call])
      (s.setEngine { s.engine with waiting := s.engine.waiting ++ [call] }) := by
  have hsame : visited (h ++ [.submitted call]) = visited h := by
    rw [visited_append]
    exact List.append_nil _
  refine ⟨?_, ?_⟩ <;> rw [hsame]
  · exact hs.chain
  · exact hs.stands.of_engine rfl rfl rfl

/-- A call is started when no stop is left to resume. -/
theorem started (hs : Resumes h s) (fuel : Nat) (call : DeferredCall) (waiting : List DeferredCall)
    (hrunning : s.engine.status = .running) :
    (Chronicle.start (Machine.interpreter fuel) s call waiting).Meets
      (fun h => (visited h).IsChain Visit.ResumedBy) h Resumes := by
  obtain ⟨hrests, hunheld⟩ := hs.stands.running hrunning
  have hpassing := passing_start fuel call waiting hrests
  have hchain : ∀ moment,
      moment <+: (Chronicle.start (Machine.interpreter fuel) s call waiting).happenings →
        (visited (h ++ moment)).IsChain Visit.ResumedBy :=
    fun moment => moments hs.chain hpassing.resumed fun v hv u _ hheld => absurd hheld (hunheld v hv)
  refine ⟨hchain, fun s' hs' => ⟨hchain _ (List.prefix_refl _), ?_⟩⟩
  rw [visited_append]
  exact Session.Reaches.standsAt (start_reaches hrests hrunning hs') fun _ => hunheld

/-- **A session that stopped goes on with the instruction at which it stopped.** -/
theorem reentered (hs : Resumes h s) (fuel : Nat) :
    (Chronicle.reenter (Machine.interpreter fuel) s).Meets
      (fun h => (visited h).IsChain Visit.ResumedBy) h Resumes := by
  cases hs.stands with
  | free rests unheld =>
    have hwoken := Engine.woken_eq rests.paused
    rw [reenter_nil _ rests.paused rests.parked]
    exact .pure hs.chain ⟨hs.chain, .free rests.woken unheld⟩
  | stopped v callers stops here =>
    have hpassing := passing_reentry fuel stops.rests (by simp)
    -- the first visit is that of the frame on top, where the program stopped
    have hfirst : ∀ w ∈ (visited h).getLast?, ∀ u ∈ (visited
        (Chronicle.reenter (Machine.interpreter fuel) s).happenings).head?, w.ResumedBy u := by
      intro w hw u hu _
      rw [here] at hw
      cases hw
      rw [stops.first fuel] at hu
      obtain ⟨-, heq⟩ := Option.ite_none_right_eq_some.mp hu
      cases heq
      exact ⟨rfl, stops.passes⟩
    have hchain : ∀ moment,
        moment <+: (Chronicle.reenter (Machine.interpreter fuel) s).happenings →
          (visited (h ++ moment)).IsChain Visit.ResumedBy :=
      fun moment => moments hs.chain hpassing.resumed hfirst
    refine ⟨hchain, fun s' hs' => ⟨hchain _ (List.prefix_refl _), ?_⟩⟩
    rw [visited_append]
    obtain ⟨hroom, hreaches⟩ := reenter_reaches stops.rests (by simp) hs'
    refine Session.Reaches.standsAt hreaches fun hnone => ?_
    -- a run that ends has visited the instruction ahead
    have hhead := stops.first fuel
    have hlt : callers.length < fuel := hroom
    rw [hnone, if_pos hlt] at hhead
    cases hhead

/-- **Whatever is done, every stop is resumed by its own instruction.** -/
theorem steady (fuel : Nat) :
    Steady (Machine.interpreter fuel) True (fun h => (visited h).IsChain Visit.ResumedBy) Resumes where
  safe hs := hs.chain
  tweak hs he := by
    obtain ⟨_, _, _, _, _, _, _, _, rfl, -⟩ := he
    exact ⟨hs.chain, hs.stands.of_engine rfl rfl rfl⟩
  report _ hs he := by
    obtain ⟨_, _, rfl, -⟩ := he
    exact ⟨hs.chain, hs.stands.of_engine rfl rfl rfl⟩
  announce location hs hsuspending := ⟨hs.chain, hs.stands.announced _ location hsuspending⟩
  submit call hs := hs.submitted call
  start hs hrunning _ := hs.started fuel _ _ hrunning
  reenter hs := hs.reentered fuel

/-- **Whatever is done to a new session**, every stop is resumed. -/
theorem undertakeAll (fuel : Nat) (config : Config) (saved : SavedSession) (clock : Time)
    {vm : Machine} (hvm : vm.frames = .empty) (deeds : List Deed) :
    (Chronicle.undertakeAll fuel ⟨.start config saved clock, vm⟩ deeds).Meets
      (fun h => (visited h).IsChain Visit.ResumedBy) [] (AtEase Resumes) := by
  have hfresh : Resumes [] ⟨.start config saved clock, vm⟩ :=
    ⟨.nil, .free (.fresh config saved clock hvm) fun v hv => by cases hv⟩
  have hload : ∀ {h : List Happening} {e : Engine} {vm : Machine} (chunk : Chunk) (file : String),
      Resumes h ⟨e, vm⟩ → Resumes h ⟨e, (vm.load chunk file).2⟩ :=
    fun chunk file hs => ⟨hs.chain, hs.stands.load chunk file⟩
  exact (steady fuel).undertakeAll hload ⟨hfresh, fun _ => rfl⟩ deeds

end Resumes

/-! ### The next command -/

namespace Chronicle

variable {σ α β : Type}

/-- What happens first happens. -/
theorem happenings_prefix_bind (c : Chronicle α) (f : α → Chronicle β) :
    c.happenings <+: (c >>= f).happenings := by
  change c.happenings <+: (c.bind f).happenings
  unfold Chronicle.bind
  split
  · exact List.prefix_append _ _
  · exact List.prefix_refl _

section Commands

variable (I : Interpreter σ) (s : Session σ)

theorem reenter_first_command (f : Stepping → Stepping) :
    (reenter I (s.command f)).happenings <+: (resumeThread I (s.command f)).happenings :=
  happenings_prefix_bind _ _

theorem reenter_first_resume :
    (reenter I (s.command Stepping.resume)).happenings <+: (resume I s).happenings :=
  (reenter_first_command I s _).trans (happenings_prefix_bind _ _)

/-- **A command that lets the program go on** begins with a re-entry. -/
theorem reenter_first {op : Operation} (hop : op.Reenters s.engine) :
    ∃ e, s.engine.Tweaks e ∧
      (reenter I (s.setEngine e)).happenings <+: (perform I s op).happenings := by
  -- the command comes before the re-entry, and is an adjustment of the steps
  have hcommand : ∀ f : Stepping → Stepping, s.engine.Tweaks (s.command f).engine :=
    fun f => Engine.tweaks_step s.engine _ _
  cases op with
  | stepIn => exact ⟨_, hcommand _, reenter_first_command I s _⟩
  | stepOver => exact ⟨_, hcommand _, reenter_first_command I s _⟩
  | stepOut =>
    change ∃ e, _ ∧ _ <+: (stepOut I s).happenings
    unfold stepOut
    split
    · exact ⟨_, hcommand _, reenter_first_command I s _⟩
    · exact ⟨_, hcommand _, reenter_first_resume I s⟩
  | resume => exact ⟨_, hcommand _, reenter_first_resume I s⟩
  | autoStep =>
    -- switched on, the automatic steps begin with one
    have hauto : (s.command Stepping.toggleAuto).engine.stepping.auto = true := by
      change (!s.engine.stepping.auto) = true
      rw [hop]
      rfl
    have htoggled :
        s.engine.Tweaks ((s.command Stepping.toggleAuto).command Stepping.stepIn).engine :=
      (hcommand Stepping.toggleAuto).trans (Engine.tweaks_step _ _ _)
    unfold perform
    dsimp only
    rw [if_pos hauto]
    exact ⟨_, htoggled, reenter_first_command I (s.command Stepping.toggleAuto) _⟩
  | _ => exact hop.elim

/-- **An automatic step that is due and not void** begins with a re-entry. -/
theorem reenter_first_autoStep {generation : Nat} (hauto : s.engine.stepping.auto = true)
    (hgeneration : generation = s.engine.generation) (hs : s.engine.status = .suspended) :
    ∃ e, s.engine.Tweaks e ∧
      (reenter I (s.setEngine e)).happenings <+: (runTask I s (.autoStep generation)).happenings := by
  refine ⟨(s.command Stepping.stepIn).engine, Engine.tweaks_step s.engine _ _, ?_⟩
  unfold runTask
  dsimp only
  rw [if_pos ⟨hauto, hgeneration, hs⟩]
  exact reenter_first_command I s _

end Commands

end Chronicle

/-! ### In the middle of a poll -/

section Polls

variable {σ : Type} {I : Interpreter σ}

/-- The first tasks of a poll, with what happens. -/
def Chronicle.runDue (I : Interpreter σ) (now : Time) : Nat → Session σ → Chronicle (Session σ)
  | 0, s => pure s
  | count + 1, s =>
    match s.engine.timers.popDue now with
    | none => pure s
    | some (task, timers) => do
      let s ← Chronicle.runTask I (s.setEngine { s.engine with timers }) task
      Chronicle.runDue I now count s

theorem Chronicle.outcome_runDue (now : Time) (count : Nat) (s : Session σ) :
    (Chronicle.runDue I now count s).outcome = s.runDue I now count := by
  induction count generalizing s with
  | zero => rfl
  | succ count ih =>
    unfold Chronicle.runDue Session.runDue
    cases s.engine.timers.popDue now with
    | none => rfl
    | some p =>
      dsimp only
      rw [Chronicle.outcome_bind, Chronicle.outcome_runTask]
      exact congrArg _ (funext ih)

/-- An invariant holds in the middle of a poll. -/
theorem Steady.runDue {reports : Prop} {S : List Happening → Prop}
    {M : List Happening → Session σ → Prop} (hM : Steady I reports S M) {h : List Happening}
    {s : Session σ} (hs : AtEase M h s) (now : Time) (count : Nat) :
    (Chronicle.runDue I now count s).Meets S h (AtEase M) := by
  induction count generalizing h s with
  | zero => exact hM.pure_atEase hs
  | succ count ih =>
    unfold Chronicle.runDue
    split
    · exact hM.pure_atEase hs
    · next task timers _ =>
      have htimers := hM.tweak_atEase hs (Engine.tweaks_timers s.engine timers)
      exact (hM.runTask htimers task).bind fun _ _ hs => ih hs

/-- What holds after some deeds holds in the middle of a poll that follows. -/
theorem Steady.due {fuel : Nat} {S : List Happening → Prop}
    {M : List Happening → Session Machine → Prop} (hM : Steady (Machine.interpreter fuel) True S M)
    {s s₀ s₁ : Session Machine} {deeds : List Deed}
    (hdeeds : (Chronicle.undertakeAll fuel s deeds).Meets S [] (AtEase M))
    (hs₀ : s.undertakeAll fuel deeds = .ok s₀) {now : Time} {count : Nat}
    (hs₁ : s₀.runDue (Machine.interpreter fuel) now count = .ok s₁) :
    M ((Chronicle.undertakeAll fuel s deeds).happenings ++
      (Chronicle.runDue (Machine.interpreter fuel) now count s₀).happenings) s₁ := by
  rw [← Chronicle.outcome_undertakeAll] at hs₀
  rw [← Chronicle.outcome_runDue] at hs₁
  have hends := ((hM.runDue (hdeeds.ends s₀ hs₀) now count).ends s₁ hs₁).holds
  rw [List.nil_append] at hends
  exact hends

end Polls

/-! ### The instruction that runs next -/

/-- **A session that stopped goes on with the instruction at which it stopped**, whatever was set in
the meantime, if the budget is enough to take its frames back. -/
theorem Session.Stopped.next {s : Session Machine} {callers : List FrameId} {v : Visit}
    (h : s.Stopped callers v) {e : Engine} (he : s.engine.Tweaks e) {fuel : Nat}
    (hroom : callers.length < fuel) {happenings : List Happening}
    (hfirst : (Chronicle.reenter (Machine.interpreter fuel) (s.setEngine e)).happenings <+:
      happenings) :
    v.RunsFirst happenings := by
  -- an adjustment leaves the stop where it is
  have hstopped : (s.setEngine e).Stopped callers v := by
    obtain ⟨_, _, _, _, _, _, _, _, rfl, -⟩ := he
    exact h.of_engine rfl rfl rfl
  have hhead := hstopped.first fuel
  rw [if_pos hroom] at hhead
  obtain ⟨rest, rfl⟩ := hfirst
  obtain ⟨rest', hvisits⟩ := List.head?_eq_some_iff.mp hhead
  refine ⟨⟨(s.setEngine e).engine.woken, v.site⟩, rest' ++ visited rest, ?_, rfl, hstopped.passes⟩
  rw [visited_append, hvisits]
  rfl

/-- A session that does not run stopped at its last visit, and that instruction is the next to run. -/
theorem Resumes.next {h : List Happening} {s : Session Machine} (hs : Resumes h s)
    (hpaused : s.engine.status ≠ .running) :
    ∃ past v, visited h = past ++ [v] ∧ v.Held ∧
      ∀ fuel, s.engine.resumeStack.length ≤ fuel →
        (∀ op : Operation, op.Reenters s.engine →
          v.RunsFirst (Chronicle.perform (Machine.interpreter fuel) s op).happenings) ∧
        ∀ generation, s.engine.stepping.auto = true → generation = s.engine.generation →
          s.engine.status = .suspended → v.RunsFirst
            (Chronicle.runTask (Machine.interpreter fuel) s (.autoStep generation)).happenings := by
  obtain ⟨v, callers, hstops, hlast⟩ := hs.stands.paused hpaused
  obtain ⟨past, hpast⟩ := List.getLast?_eq_some_iff.mp hlast
  refine ⟨past, v, hpast, hstops.held, fun fuel hfuel => ?_⟩
  -- the frame on top is parked too, so that the callers are fewer than what is parked
  have hroom : callers.length < fuel := by
    unfold Engine.resumeStack at hfuel
    rw [hstops.rests.parked] at hfuel
    simp at hfuel
    exact hfuel
  constructor
  · intro op hop
    obtain ⟨e, he, hfirst⟩ := Chronicle.reenter_first (Machine.interpreter fuel) s hop
    exact hstops.next he hroom hfirst
  · intro generation hauto hgeneration hsuspended
    obtain ⟨e, he, hfirst⟩ :=
      Chronicle.reenter_first_autoStep (Machine.interpreter fuel) s hauto hgeneration hsuspended
    exact hstops.next he hroom hfirst

end BytecodeDebugger
