import BytecodeDebugger.Proofs.Session.Stops
import BytecodeDebugger.Proofs.Session.Tidy

/-!
# A pause always works

A pause switches stepping on and does not touch the target of a step. If the target were a frame that
is gone, nothing would ever stop again. Since a session at rest is tidy (`Session.Tidies`), a session
that runs remembers no frame at all, and a pause makes it alert (`Session.Alert`). It stays alert
through whatever the client does besides commands, until a function of the language is called: this
call stops at the first instruction that admits it (`Chronicle.StopsAtOnce`).

Main statement: `Session.pause_effective`.
-/

namespace BytecodeDebugger

open Chronicle (outcome_bind_eq_ok)

/-! ### Stopping at once -/

/-- The place in front of the first instruction of a function. -/
def Closure.entrance (c : Closure) (frame : FrameId) (first : Instruction) : Site :=
  { frame, file := c.file, nextPc := 1, line := c.proto.lineAt 0, opcode := first.code
    coroutineResuming := false }

/-- **A call stops at once**, in its first frame and before an instruction runs that admits a stop; or
it ends and all its instructions have opcodes that never stop, which are `codes`. -/
structure Chronicle.StopsAtOnce (c : Chronicle (Session Machine)) (closure : Closure)
    (frame : FrameId) (codes : List UInt8) : Prop where
  /-- also in a call that does not end -/
  visits : ∀ past v future, visited c.happenings = past ++ v :: future →
    v.site.frame = frame ∧ (v.Held ↔ v.site.opcode ∉ codes) ∧ ∀ u ∈ past, u.site.opcode ∈ codes
  begins : ∀ s first, c.outcome = .ok s → closure.proto.instructions[0]? = some first →
    ∃ v future, visited c.happenings = v :: future ∧ v.site = closure.entrance frame first
  ends : ∀ s, c.outcome = .ok s →
    (s.engine.status = .suspending ∧ s.engine.resumeStack = [.call frame] ∧
      ∃ past v, visited c.happenings = past ++ [v] ∧ v.Held) ∨
    (s.engine.status = .running ∧ ∀ u ∈ visited c.happenings, u.site.opcode ∈ codes)

/-- The deed calls a function of the language. -/
def Deed.Calls (m : Machine) : Deed → Closure → Prop
  | .operation (.submit call), closure => m.callable? call.function = some (.closure closure)
  | .launch program _, closure => closure = ⟨program.chunk.main, [], program.file⟩
  | _, _ => False

namespace Machine

variable {m : Machine} {e e' : Engine}

/-- **The first visit of a call of a function is that of its first instruction**, if it has one. -/
theorem visits_call_closure (fuel : Nat) {f : Value} (args : List Value) {closure : Closure}
    (hb : m.Bounded) (hf : m.callable? f = some (.closure closure)) (hfits : closure.Fits)
    (e : Engine) :
    ∃ future, visits ((call (fuel + 2) f args m).consultations Engine.reply e) =
      (closure.proto.instructions[0]?.map (closure.entrance m.nextFrame)).toList.map (Visit.mk e) ++
        future := by
  -- the frame of the call stands in front of its first instruction
  obtain ⟨a, ha, hclosure, hpc⟩ : ∃ a, (m.enter closure args).2.frame? m.nextFrame = some a ∧
      a.closure = closure ∧ a.pc = 0 :=
    ⟨_, (frame?_setFrame m m.nextFrame m.nextFrame _).trans (if_pos rfl), rfl, rfl⟩
  have hsite : siteOf m.nextFrame a = closure.entrance m.nextFrame := by
    unfold siteOf Closure.entrance
    rw [hclosure, hpc]
  rw [call_closure hf hfits, visits_run_succ fuel (Runs.entered hb closure args), ahead_cons ha, hclosure,
    hpc, hsite]
  exact ⟨_, rfl⟩

/-- **A call of a function begins with its first instruction.** -/
theorem call_begins {fuel : Nat} {f : Value} {args : List Value} {closure : Closure}
    {first : Instruction} (hb : m.Bounded) (hf : m.callable? f = some (.closure closure))
    (hfirst : closure.proto.instructions[0]? = some first) {x : RunResult × Machine}
    (hcall : (call fuel f args m).run Engine.reply e = .ok (x, e')) :
    ∃ future, visits ((call fuel f args m).consultations Engine.reply e) =
      ⟨e, closure.entrance m.nextFrame first⟩ :: future := by
  have hfits := fits_of_run hf hcall
  -- a call takes one unit of the budget and its first turn another
  cases fuel with
  | zero => cases hcall
  | succ fuel =>
    cases fuel with
    | zero =>
      rw [call_closure hf hfits] at hcall
      cases hcall
    | succ fuel =>
      obtain ⟨future, hvisits⟩ := visits_call_closure fuel args hb hf hfits e
      rw [hfirst] at hvisits
      exact ⟨future, hvisits⟩

/-- **The first visit is that of the first instruction**, also in a call that does not end. -/
theorem first_visit_of_call {fuel : Nat} {f : Value} {args : List Value} {closure : Closure}
    {first : Instruction} {v : Visit} {future : List Visit} (hb : m.Bounded)
    (hf : m.callable? f = some (.closure closure))
    (hfirst : closure.proto.instructions[0]? = some first)
    (hvisits : visits ((call fuel f args m).consultations Engine.reply e) = v :: future) :
    v = ⟨e, closure.entrance m.nextFrame first⟩ := by
  cases fuel with
  | zero => cases hvisits
  | succ fuel =>
    have hfits : closure.Fits := by
      by_contra hfits
      rw [call_overflow hf hfits] at hvisits
      cases hvisits
    cases fuel with
    | zero =>
      rw [call_closure hf hfits] at hvisits
      cases hvisits
    | succ fuel =>
      obtain ⟨later, hlater⟩ := visits_call_closure fuel args hb hf hfits e
      rw [hfirst] at hlater
      exact (List.cons.inj (hvisits.symm.trans hlater)).1

/-- What comes before a visit was not held up. -/
theorem Passing.before {bound : Nat} {past future : List Visit} {v : Visit}
    (h : Passing bound (past ++ v :: future)) : ∀ u ∈ past, ¬u.Held := by
  intro u hu
  obtain ⟨before, after, rfl⟩ := List.append_of_mem hu
  have hchain := List.isChain_iff_forall_rel_of_append_cons_cons.mp h.unheld
  cases after with
  | nil => exact @hchain u v before future (by simp)
  | cons w after => exact @hchain u w before (after ++ v :: future) (by simp)

end Machine

namespace Session

/-! ### Alert sessions -/

/-- **An alert session**: nothing is parked, and the engine is alert. -/
structure Alert (s : Session Machine) (codes : List UInt8) : Prop where
  rests : s.Resting []
  alert : s.engine.Alert codes

variable {s s' : Session Machine} {codes : List UInt8} {fuel : Nat}

/-- **A pause makes a tidy session alert** that runs. -/
theorem Tidies.alert (h : s.Tidies) (hs : s.engine.status = .running) :
    (s.setEngine s.engine.pause).Alert s.engine.config.excludedOpcodes := by
  obtain ⟨stack, hstack⟩ := h.rests
  obtain ⟨rfl, hparked⟩ := hstack.unparked hs
  have htidy := h.paused.tidy
  unfold Session.setEngine Engine.pause at htidy ⊢
  rw [if_pos hs] at htidy ⊢
  exact ⟨hstack.of_engine rfl rfl, .of_tidy htidy hs hparked rfl⟩

namespace Alert

theorem of_engine (h : s.Alert codes) {e : Engine} (hs : e.status = s.engine.status)
    (hp : e.parked = s.engine.parked) (hon : e.stepping.on = s.engine.stepping.on)
    (ht : e.stepping.target = s.engine.stepping.target) (hb : e.barriers = s.engine.barriers)
    (hc : e.config = s.engine.config) : (s.setEngine e).Alert codes :=
  ⟨h.rests.of_engine hs hp, h.alert.of_eq hs hp hon ht hb hc⟩

theorem aside (h : s.Alert codes) {e : Engine} (he : s.engine.Aside e) :
    (s.setEngine e).Alert codes :=
  h.of_engine he.status he.parked (congrArg Stepping.on he.stepping)
    (congrArg Stepping.target he.stepping) he.barriers he.config

/-- An alert session is stepping already. -/
theorem paused (h : s.Alert codes) : (s.setEngine s.engine.pause).Alert codes :=
  h.aside (Engine.aside_pause h.alert.on)

theorem load {e : Engine} {vm : Machine} (h : Alert ⟨e, vm⟩ codes) (chunk : Chunk) (file : String) :
    Alert ⟨e, (vm.load chunk file).2⟩ codes :=
  ⟨h.rests.load chunk file, h.alert⟩

/-! ### Calls -/

/-- A call that is submitted to an alert session is started. -/
theorem submit_starts (h : s.Alert codes) (fuel : Nat) (call : DeferredCall) :
    (Chronicle.submit (Machine.interpreter fuel) s call).outcome =
        (Chronicle.start (Machine.interpreter fuel) s call s.engine.waiting).outcome ∧
      visited (Chronicle.submit (Machine.interpreter fuel) s call).happenings =
        visited (Chronicle.start (Machine.interpreter fuel) s call s.engine.waiting).happenings := by
  unfold Chronicle.submit
  rw [if_pos h.alert.running]
  exact ⟨rfl, rfl⟩

/-- A launch loads a chunk and submits the call of its main function, in a session that is alert as
before. -/
theorem launches (h : s.Alert codes) (fuel : Nat) (program : Program) (stopOnEntry : Bool) :
    ∃ e, Alert ⟨e, (s.vm.load program.chunk program.file).2⟩ codes ∧
      Chronicle.undertake fuel s (.launch program stopOnEntry) =
        Chronicle.submit (Machine.interpreter fuel) ⟨e, (s.vm.load program.chunk program.file).2⟩
          ⟨.function (s.vm.load program.chunk program.file).1, []⟩ := by
  have hloaded : Alert ⟨(s.engine.fileLoaded program.file program.chunk.sourcePath
      fun _ => program.source).2, (s.vm.load program.chunk program.file).2⟩ codes :=
    (h.aside (Engine.aside_fileLoaded _ _ _ _)).load program.chunk program.file
  cases stopOnEntry with
  | false => exact ⟨_, hloaded, rfl⟩
  | true => exact ⟨_, hloaded.paused, rfl⟩

section Calls

variable (h : s.Alert codes) (hcall : Op.callCode ∉ codes)

include h hcall

/-- What a call does in an alert session, turn by turn. -/
theorem goes (fuel : Nat) (call : DeferredCall) (waiting : List DeferredCall) :
    Machine.Goes (Machine.FirstFrame codes s.vm.nextFrame)
      (Machine.FirstVisit codes s.vm.nextFrame) (fun e => e.resumeStack = [.call s.vm.nextFrame])
      (Machine.call fuel call.function call.args s.vm) { s.engine with waiting } := by
  have halert : ({ s.engine with waiting } : Engine).Alert codes :=
    h.alert.of_eq rfl rfl rfl rfl rfl rfl
  exact (Machine.alertWise codes s.vm.nextFrame hcall).call h.rests.runs.bounded h.alert.running
    h.alert.parked ⟨halert, .inr rfl⟩ ⟨halert, .inl rfl⟩

/-- After a call that was not held up an alert session is alert. -/
theorem of_ended {call : DeferredCall} {waiting : List DeferredCall} {x : RunResult × Machine}
    {e' : Engine}
    (hrun : (Machine.call fuel call.function call.args s.vm).run Engine.reply
      { s.engine with waiting } = .ok (x, e'))
    (hends : Machine.Ends (fun y => ∃ k, (Machine.call k call.function call.args s.vm).detach = .ok y)
      .empty s.vm { s.engine with waiting } x e')
    (hserved : s.engine.Served (e'.conclude none x.1)) (hx : x.1 ≠ .ok .suspended) :
    Alert ⟨e'.conclude none x.1, x.2⟩ codes := by
  obtain ⟨stack, hstack⟩ := hends.resting h.alert.running h.alert.parked none
  -- the engine is left alert by a run that completed, as any run keeps it
  have halert : (e'.conclude none x.1).Alert codes := by
    have hgoes := (h.goes hcall fuel call waiting).ends x e' hrun
    obtain ⟨result, m⟩ := x
    cases result with
    | ok outcome =>
      cases outcome with
      | suspended => exact absurd rfl hx
      | completed values => exact hgoes.1
    | error error =>
      -- the frames of a run that failed are forgotten
      have hstanding := (hends.standing h.alert.running h.alert.parked).resolve_left hx
      have hrunning := Engine.fail_running hstanding.1 hstanding.2 error none
      obtain ⟨e₁, -, heq⟩ := e'.fail_eq error none
      change (e'.fail error none).2.Alert codes
      refine ⟨hrunning.1, hrunning.2, hserved.stepping_on.trans h.alert.on, ?_, fun f => ?_, ?_⟩
      · rw [heq]
        rfl
      · rw [heq]
        exact SortedMap.get?_empty f
      · exact (congrArg Config.excludedOpcodes hserved.config).trans h.alert.excluded
  obtain rfl := hstack.running.mp halert.running
  exact ⟨hstack, halert⟩

/-- **A call that ends in an alert session** stopped in its first frame, or the session is alert
still. -/
theorem started {call : DeferredCall} {waiting : List DeferredCall}
    (hs' : (Chronicle.start (Machine.interpreter fuel) s call waiting).outcome = .ok s') :
    (s'.engine.status = .suspending ∧ s'.engine.resumeStack = [.call s.vm.nextFrame] ∧
      ∃ past v, visited (Chronicle.start (Machine.interpreter fuel) s call waiting).happenings =
        past ++ [v] ∧ v.Held) ∨
    (s'.Alert codes ∧
      ∀ u ∈ visited (Chronicle.start (Machine.interpreter fuel) s call waiting).happenings,
        ¬u.Held) := by
  have hserved := served_start hs'
  obtain ⟨x, e', rfl, hrun, hends⟩ := start_advances h.rests hs'
  have hgoes := (h.goes hcall fuel call waiting).ends x e' hrun
  rw [visited_start]
  -- the call of a function walks to a stop or to its end, and a host function walks nowhere
  rcases Machine.call_walks h.rests.runs.bounded hrun with ⟨closure, -, hwalked⟩ | ⟨hnone, hx⟩
  · cases hwalked with
    | held n passed v callers m' walks ahead works held split unheld =>
      have hstatus : (v.engine.hold v.site callers).status = .suspending := by
        rw [Engine.hold_eq (works.status.trans h.alert.running)
          (works.parked.trans h.alert.parked)]
      exact .inl ⟨hstatus, hgoes, passed, v, split, held⟩
    | ended _ _ hx unheld => exact .inr ⟨h.of_ended hcall hrun hends hserved hx, unheld⟩
  · refine .inr ⟨h.of_ended hcall hrun hends hserved hx, fun u hu => ?_⟩
    rw [hnone] at hu
    cases hu

/-- **What a call visits in an alert session**, also if it does not end: instructions of its first
frame, of which the first that admits a stop is held up. -/
theorem visits_call {call : DeferredCall} {waiting : List DeferredCall} {past future : List Visit}
    {v : Visit}
    (hvisits : visits ((Machine.call fuel call.function call.args s.vm).consultations Engine.reply
      { s.engine with waiting }) = past ++ v :: future) :
    v.site.frame = s.vm.nextFrame ∧ (v.Held ↔ v.site.opcode ∉ codes) ∧
      ∀ u ∈ past, u.site.opcode ∈ codes := by
  have hgoes := (h.goes hcall fuel call waiting).visits
  have hpassing : Machine.Passing _ (visits ((Machine.call fuel call.function call.args
      s.vm).consultations Engine.reply { s.engine with waiting })) :=
    Machine.call_visits_le h.rests.runs.bounded
  rw [hvisits] at hgoes hpassing
  have hv := hgoes v (by simp)
  refine ⟨hv.1, hv.2, fun u hu => ?_⟩
  have hu' := hgoes u (List.mem_append_left _ hu)
  -- a visit that could be held up would have been the last one
  exact Decidable.not_not.mp fun hadmits => hpassing.before u hu (hu'.2.mpr hadmits)

/-- **A call of a function in an alert session stops at once.** -/
theorem stopsAtOnce {call : DeferredCall} {closure : Closure}
    (hclosure : s.vm.callable? call.function = some (.closure closure)) :
    (Chronicle.submit (Machine.interpreter fuel) s call).StopsAtOnce closure s.vm.nextFrame codes := by
  obtain ⟨houtcome, hvisited⟩ := h.submit_starts fuel call
  have hgoes := (h.goes hcall fuel call s.engine.waiting).visits
  rw [← visited_start] at hgoes
  refine ⟨fun past v future hsplit => ?_, fun s' first hs' hfirst => ?_, fun s' hs' => ?_⟩
  · rw [hvisited, visited_start] at hsplit
    exact h.visits_call hcall hsplit
  · rw [houtcome] at hs'
    obtain ⟨x, e', -, hrun, -⟩ := start_advances h.rests hs'
    -- a call that ends began at the first instruction of its function
    obtain ⟨future, hvisits⟩ := Machine.call_begins h.rests.runs.bounded hclosure hfirst hrun
    rw [hvisited, visited_start, hvisits]
    exact ⟨_, future, rfl, rfl⟩
  · rw [houtcome] at hs'
    rw [hvisited]
    rcases h.started hcall hs' with hstopped | ⟨halert, hunheld⟩
    · exact .inl hstopped
    · refine .inr ⟨halert.alert.running, fun u hu => ?_⟩
      exact Decidable.not_not.mp fun hadmits => hunheld u hu ((hgoes u hu).2.mpr hadmits)

/-! ### Meanwhile -/

/-- A call without a visit leaves the session alert. -/
theorem submitted {call : DeferredCall}
    (hs' : (Chronicle.submit (Machine.interpreter fuel) s call).outcome = .ok s')
    (hnone : visited (Chronicle.submit (Machine.interpreter fuel) s call).happenings = []) :
    s'.Alert codes := by
  obtain ⟨houtcome, hvisited⟩ := h.submit_starts fuel call
  rw [houtcome] at hs'
  rw [hvisited] at hnone
  rcases h.started hcall hs' with ⟨-, -, past, v, hsplit, -⟩ | ⟨halert, -⟩
  · rw [hnone] at hsplit
    simp at hsplit
  · exact halert

omit hcall

/-- While the program runs nothing that was put off means anything. -/
theorem polled {now : Time} {budget : Nat}
    (hs' : (Chronicle.pollAt (Machine.interpreter fuel) now budget s).outcome = .ok s') :
    s'.Alert codes := by
  induction budget generalizing s with
  | zero => cases hs'
  | succ budget ih =>
    unfold Chronicle.pollAt at hs'
    split at hs'
    · cases hs'
      exact h
    · next task timers _ =>
      have htaken : (s.setEngine { s.engine with timers }).Alert codes :=
        h.of_engine rfl rfl rfl rfl rfl rfl
      -- while the program runs every task is void
      have hvoid : Chronicle.runTask (Machine.interpreter fuel)
          (s.setEngine { s.engine with timers }) task =
            pure (s.setEngine { s.engine with timers }) := by
        have hrunning := htaken.alert.running
        cases task with
        | enterSuspended epoch location =>
          refine if_neg fun hdue => ?_
          cases hrunning.symm.trans hdue.2
        | autoStep generation =>
          refine if_neg fun hdue => ?_
          cases hrunning.symm.trans hdue.2.2
      rw [hvoid] at hs'
      exact ih htaken hs'

include hcall

/-- **Until a function is called and unless a command is given** an alert session stays alert. -/
theorem undertaken {deed : Deed} (hdeed : deed.directs = false)
    (hs' : (Chronicle.undertake fuel s deed).outcome = .ok s')
    (hnone : visited (Chronicle.undertake fuel s deed).happenings = []) : s'.Alert codes := by
  cases deed with
  | launch program stopOnEntry =>
    obtain ⟨e, halert, hlaunch⟩ := h.launches fuel program stopOnEntry
    rw [hlaunch] at hs' hnone
    exact halert.submitted hcall hs' hnone
  | operation op =>
    by_cases hset : op.isAside = true
    · obtain ⟨outcome, hsilent, hends⟩ :=
        Chronicle.perform_aside (Machine.interpreter fuel) s hset
      have houtcome : outcome = .ok s' := (congrArg Chronicle.outcome hsilent).symm.trans hs'
      obtain ⟨e, haside, rfl⟩ := hends s' houtcome
      exact h.aside haside
    · cases op with
      | stepIn | stepOver | stepOut | resume | autoStep => cases hdeed
      | submit call => exact h.submitted hcall hs' hnone
      | poll budget => exact h.polled hs'
      | pause =>
        cases hs'
        exact h.paused
      | _ => exact absurd rfl hset

theorem undertakeAll {deeds : List Deed} (hdeeds : ∀ deed ∈ deeds, deed.directs = false)
    (hs' : (Chronicle.undertakeAll fuel s deeds).outcome = .ok s')
    (hnone : visited (Chronicle.undertakeAll fuel s deeds).happenings = []) : s'.Alert codes := by
  induction deeds generalizing s with
  | nil =>
    cases hs'
    exact h
  | cons deed deeds ih =>
    obtain ⟨s₁, hs₁, hrest⟩ := outcome_bind_eq_ok.mp hs'
    -- nothing was visited by all of them, so by none of them
    have hsplit : (Chronicle.undertakeAll fuel s (deed :: deeds)).happenings =
        (Chronicle.undertake fuel s deed).happenings ++
          (Chronicle.undertakeAll fuel s₁ deeds).happenings := by
      change (Chronicle.bind _ _).happenings = _
      unfold Chronicle.bind
      rw [hs₁]
    rw [hsplit, visited_append] at hnone
    obtain ⟨hfirst, hlater⟩ := List.append_eq_nil_iff.mp hnone
    exact ih (h.undertaken hcall (hdeeds deed List.mem_cons_self) hs₁ hfirst)
      (fun d hd => hdeeds d (List.mem_cons_of_mem _ hd)) hrest hlater

/-- **Whatever calls a function stops at once.** -/
theorem calls {deed : Deed} {closure : Closure} (hdeed : deed.Calls s.vm closure) :
    (Chronicle.undertake fuel s deed).StopsAtOnce closure s.vm.nextFrame codes := by
  cases deed with
  | launch program stopOnEntry =>
    obtain ⟨e, halert, hlaunch⟩ := h.launches fuel program stopOnEntry
    -- what a launch calls is the main function that it loaded
    have hclosure : (s.vm.load program.chunk program.file).2.callable?
        (.function (s.vm.load program.chunk program.file).1) = some (.closure closure) := by
      obtain rfl : closure = ⟨program.chunk.main, [], program.file⟩ := hdeed
      exact Array.getElem?_push_size
    rw [hlaunch]
    exact halert.stopsAtOnce hcall hclosure
  | operation op =>
    cases op with
    | submit call => exact h.stopsAtOnce hcall hdeed
    | _ => exact hdeed.elim

end Calls

end Alert

/-! ### The main result -/

/-- **A pause always works.** Whatever was done to a new session over a machine without frames, if a
return is among the opcodes that end steps, the target of a step and all frames with barriers are on
the resume stack. So if the program runs then, and calls admit a stop, a pause works: unless a command
is given, the next call of a function stops at once, be it made by the host or by a launch. Until then
the client may do anything else, and calls in which no instruction is visited may be made. -/
theorem pause_effective (fuel : Nat) (config : Config) (saved : SavedSession) (clock : Time)
    (vm : Machine) (hvm : vm.frames = .empty)
    (hclears : Op.returnCode ∈ config.stepClearingOpcodes) (deeds : List Deed) (s : Session Machine)
    (hs : Session.undertakeAll fuel ⟨.start config saved clock, vm⟩ deeds = .ok s) :
    ((s.engine.stepping.target = none ∨
        ∃ f, s.engine.stepping.target = some (.call f) ∧ .call f ∈ s.engine.resumeStack) ∧
      ∀ f, s.engine.barriers.get? f ≠ none → .call f ∈ s.engine.resumeStack) ∧
    (Op.callCode ∉ config.excludedOpcodes → s.engine.status = .running →
      ∀ (meanwhile : List Deed) (s₁ : Session Machine),
        (∀ deed ∈ meanwhile, deed.directs = false) →
        s.undertakeAll fuel (.operation .pause :: meanwhile) = .ok s₁ →
        visited (Chronicle.undertakeAll fuel s (.operation .pause :: meanwhile)).happenings = [] →
        ∀ (deed : Deed) (closure : Closure), deed.Calls s₁.vm closure →
          (Chronicle.undertake fuel s₁ deed).StopsAtOnce closure s₁.vm.nextFrame
            config.excludedOpcodes) := by
  have hconfig : s.engine.config = config := (evolves_undertakeAll hs).config
  rw [← Chronicle.outcome_undertakeAll] at hs
  have htidies := (Tidies.fresh hclears saved clock hvm).undertakeAll hs
  -- what the program keeps of its stops belongs to frames that are parked
  have hparked : ∀ f, f ∈ ([] : List FrameId) ∨ Resumable.call f ∈ s.engine.parked →
      Resumable.call f ∈ s.engine.resumeStack := fun f hf =>
    List.mem_reverse.mpr (hf.resolve_left List.not_mem_nil)
  refine ⟨⟨?_, fun f hf => hparked f (htidies.tidy.barriers f hf)⟩, ?_⟩
  · cases htarget : s.engine.stepping.target with
    | none => exact .inl rfl
    | some entry =>
      obtain ⟨f, rfl, hf⟩ := htidies.tidy.target entry htarget
      exact .inr ⟨f, rfl, hparked f hf⟩
  · intro hcall hrunning meanwhile s₁ hmeanwhile hs₁ hnone deed closure hdeed
    have halert := htidies.alert hrunning
    rw [hconfig] at halert
    rw [← Chronicle.outcome_undertakeAll] at hs₁
    -- the pause itself visits nothing
    exact (halert.undertakeAll hcall hmeanwhile hs₁ hnone).calls hcall hdeed

/-- After a step whose target returned, a pause stops the next launch in its first frame. -/
theorem pause_after_a_step :
    Machine.relay.frames = .empty ∧ Op.returnCode ∈ ({} : Config).stepClearingOpcodes ∧
      Op.callCode ∉ ({} : Config).excludedOpcodes ∧ ∃ s s₁ s₂,
        Session.undertakeAll 10 ⟨.start {} {} 0, .relay⟩
          [.operation .pause, .operation (.submit ⟨.function 0, [.function 1]⟩),
            .operation .stepOver, .operation .stepOver] = .ok s ∧
        s.engine.status = .running ∧
        s.undertakeAll 10 [.operation .pause, .operation .toggleStops] = .ok s₁ ∧
        visited (Chronicle.undertakeAll 10 s
          [.operation .pause, .operation .toggleStops]).happenings = [] ∧
        (Chronicle.undertake 10 s₁ (.launch
          ⟨"", { main := { instructions := #[⟨30, 0, 1, 0⟩], lines := #[1] } }, .error ""⟩
            false)).outcome = .ok s₂ ∧
        s₂.engine.resumeStack = [.call s₁.vm.nextFrame] := by
  have hrun : (Session.undertakeAll 10 ⟨.start {} {} 0, .relay⟩
      [.operation .pause, .operation (.submit ⟨.function 0, [.function 1]⟩),
        .operation .stepOver, .operation .stepOver]).map (fun s => (s.engine.status,
          (visited (Chronicle.undertakeAll 10 s
            [.operation .pause, .operation .toggleStops]).happenings).length,
          (s.undertakeAll 10 [.operation .pause, .operation .toggleStops]).map fun s₁ =>
            (Chronicle.undertake 10 s₁ (.launch
              ⟨"", { main := { instructions := #[⟨30, 0, 1, 0⟩], lines := #[1] } }, .error ""⟩
                false)).outcome.map fun s₂ => s₂.engine.status)) =
      .ok (.running, 0, .ok (.ok .suspending)) := by
    decide +kernel
  obtain ⟨s, hs, hfirst⟩ := Attended.exists_of_map_eq_ok hrun
  obtain ⟨hrunning, hrest⟩ := Prod.mk.inj hfirst
  obtain ⟨hnone, hsecond⟩ := Prod.mk.inj hrest
  obtain ⟨s₁, hs₁, hthird⟩ := Attended.exists_of_map_eq_ok hsecond
  obtain ⟨s₂, hs₂, hsuspending⟩ := Attended.exists_of_map_eq_ok hthird
  obtain ⟨-, hpause⟩ := pause_effective 10 {} {} 0 .relay rfl (by decide) _ s hs
  have hstops := hpause (by decide) hrunning [.operation .toggleStops] s₁ (by decide) hs₁
    (List.length_eq_zero_iff.mp hnone)
    (.launch ⟨"", { main := { instructions := #[⟨30, 0, 1, 0⟩], lines := #[1] } }, .error ""⟩ false)
    ⟨{ instructions := #[⟨30, 0, 1, 0⟩], lines := #[1] }, [], ""⟩ rfl
  -- the launch is held up in front of its only instruction
  rcases hstops.ends s₂ hs₂ with ⟨-, hstack, -⟩ | ⟨hstill, -⟩
  · exact ⟨rfl, by decide, by decide, s, s₁, s₂, hs, hrunning, hs₁, List.length_eq_zero_iff.mp hnone,
      hs₂, hstack⟩
  · cases hsuspending.symm.trans hstill

end Session

end BytecodeDebugger
