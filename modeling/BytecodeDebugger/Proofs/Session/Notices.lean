import BytecodeDebugger.Playback
import BytecodeDebugger.Proofs.Engine.Notices
import BytecodeDebugger.Proofs.Session.Evolution

/-!
# Stops are announced

The engine's notices of its stops (`Engine.Owing`) reach the clients in a session over any
interpreter: after a poll no notice is owed, what is announced as suspended was announced as
suspending just before, and a notice that a command overtook has no effect from then on.
-/

namespace BytecodeDebugger

namespace Session

variable {ticks : Time → Time → Prop} {σ : Type} {I : Interpreter σ} {s s' : Session σ}

/-- A poll that ends leaves nothing that is due. -/
theorem popDue_pollAt {now : Time} {budget : Nat} (h : s.pollAt I now budget = .ok s') :
    s'.engine.timers.popDue now = none := by
  -- a poll that ends has found nothing more to do
  induction budget generalizing s with
  | zero => cases h
  | succ budget ih =>
    unfold pollAt at h
    split at h
    · next hidle =>
      cases h
      exact hidle
    · next task timers hpop =>
      cases htask : (s.setEngine { s.engine with timers }).runTask I task with
      | error reason =>
        rw [htask] at h
        cases h
      | ok s₁ =>
        rw [htask] at h
        exact ih h

theorem evolves_poll {budget : Nat} (h : s.poll I budget = .ok s') :
    Engine.Evolves ticks s.engine s'.engine := by
  rw [poll, ← Chronicle.outcome_pollAt] at h
  exact (Chronicle.follows_pollAt I s rfl budget).evolves h

/-- After a poll nothing is due. -/
theorem popDue_poll {budget : Nat} (h : s.poll I budget = .ok s') :
    s'.engine.timers.popDue s'.engine.clock = none := by
  have hclock : s'.engine.clock = s.engine.clock :=
    Engine.Evolves.clock (evolves_poll h)
  rw [hclock]
  exact popDue_pollAt h

/-- **After a poll no notice is owed.** -/
theorem status_poll {budget : Nat} (howing : s.engine.Owing) (h : s.poll I budget = .ok s') :
    s'.engine.status ≠ .suspending :=
  (howing.evolves (evolves_poll h)).not_suspending (popDue_poll h)

/-- **The task means nothing any more**: whatever is done to the session, and whenever in a poll the
task is taken off the list, it leaves the session as it is. -/
def IsVoid (I : Interpreter σ) (s : Session σ) (task : TimedTask) : Prop :=
  ∀ ops s₁, s.performAll I ops = .ok s₁ →
    ∀ count s₂, s₁.runDue I s₁.engine.clock count = .ok s₂ →
      ∀ timers, (s₂.setEngine { s₂.engine with timers }).runTask I task =
        .ok (s₂.setEngine { s₂.engine with timers })

/-- The notice of a stop that is over means nothing. -/
theorem isVoid_of_past {epoch : Nat} (h : s.engine.Past epoch) (location : SourceLocation) :
    s.IsVoid I (.enterSuspended epoch location) := by
  intro ops s₁ hs₁ count s₂ hs₂ timers
  have hafter : Engine.Evolves (fun _ _ => True) s.engine s₁.engine :=
    evolves_performAll hs₁ (isChain_true _)
  have hmeanwhile : Engine.Evolves Engine.Still s₁.engine s₂.engine := evolves_runDue rfl hs₂
  -- an epoch that is over stays over
  have hpast := (h.evolves hafter).evolves hmeanwhile
  unfold runTask
  dsimp only
  rw [if_neg]
  rintro ⟨hepoch, hstatus⟩
  exact hpast.2 hepoch hstatus

/-- A command that lets the program go on leaves all stops behind. -/
theorem past_of_reenters {op : Operation} (hop : op.Reenters s.engine)
    (hs' : s.perform I op = .ok s') {epoch : Nat} (hepoch : epoch ≤ s.engine.epoch) :
    s'.engine.Past epoch := by
  obtain ⟨stepping, generation, hfollows⟩ := Chronicle.follows_reentry I s hop
  rw [← Chronicle.outcome_perform] at hs'
  -- going on leaves the stop behind before anything runs
  have hgone : Engine.Past epoch ({ s.engine with stepping, generation }.transition .resuming {}) :=
    .of_resuming hepoch
  have hafter : Engine.Evolves Engine.Still _ s'.engine := hfollows.evolves hs'
  exact hgone.evolves hafter

/-- **Stops are announced once they are there, and none that was overtaken**, for every interpreter
and any operations of a new session between which the clock never goes back. A stop is announced only
right after it was announced to be coming, with the same location; this holds at every moment, also
in an operation that does not end. A poll that ends leaves no stop to be announced. And when a command
lets the program go on, the notices that were put off before it mean nothing from then on, wherever
the program stops again. -/
theorem stops_announced (I : Interpreter σ) (config : Config) (saved : SavedSession) (clock : Time)
    (vm : σ) (ops : List Operation)
    (hclock : (clock :: ops.filterMap Operation.time?).IsChain (· ≤ ·)) :
    (∀ e call, .consulted e call ∈
        (Chronicle.performAll I ⟨.start config saved clock, vm⟩ ops).happenings →
      Foretold e.updates) ∧
    ∀ s, performAll I ⟨.start config saved clock, vm⟩ ops = .ok s →
      Foretold s.engine.updates ∧
      (∀ budget s', s.poll I budget = .ok s' → s'.engine.status ≠ .suspending) ∧
      ∀ command, command.Reenters s.engine → ∀ s', s.perform I command = .ok s' →
        ∀ epoch location, s.engine.Notice epoch location →
          s'.IsVoid I (.enterSuspended epoch location) := by
  have hstart : (Engine.start config saved clock).Owing := .start config saved clock
  have hfollows := Chronicle.follows_performAll I ⟨.start config saved clock, vm⟩ ops hclock
  constructor
  · intro e call hasked
    exact (hstart.evolves (hfollows.asked hasked)).foretold
  · intro s hs
    have howing : s.engine.Owing := hstart.evolves (evolves_performAll hs hclock)
    refine ⟨howing.foretold, fun budget s' hs' => status_poll howing hs', ?_⟩
    intro command hcommand s' hs' epoch location hnotice
    have hepoch := howing.earlier epoch location hnotice
    exact isVoid_of_past (past_of_reenters hcommand hs' hepoch) location

end Session

/-- A call that stops on its first line and, when it goes on, on its second. -/
def twoLines : Player where
  frames := SortedMap.ofList [(0, {})]
  scripts := [[.before 0 0 1 0 false none (some [])], [.before 0 1 2 0 false none (some [])]]

/-- A step overtakes the notice of the stop before it and stops again, which does not bring the notice
back. -/
theorem Session.overtaken_stop :
    ∃ s s', Session.performAll Player.interpreter ⟨.start {} {} 0, twoLines⟩
        [.pause, .submit ⟨.nil, []⟩] = .ok s ∧
      s.engine.Notice 1 ⟨"", 1⟩ ∧ s.perform Player.interpreter .stepIn = .ok s' ∧
      s'.engine.status = .suspending ∧
      s'.IsVoid Player.interpreter (.enterSuspended 1 ⟨"", 1⟩) := by
  obtain ⟨-, hends⟩ := Session.stops_announced Player.interpreter {} {} 0 twoLines
    [.pause, .submit ⟨.nil, []⟩] (.singleton 0)
  have hfirst : (Session.performAll Player.interpreter ⟨.start {} {} 0, twoLines⟩
      [.pause, .submit ⟨.nil, []⟩]).map (fun s => (s.engine.timers,
        (s.perform Player.interpreter .stepIn).map fun s' => s'.engine.status)) =
      .ok ([⟨0, .enterSuspended 1 ⟨"", 1⟩⟩], .ok .suspending) := by
    decide +kernel
  obtain ⟨s, hs, hfirst⟩ := Attended.exists_of_map_eq_ok hfirst
  -- the notice is on its way, and the step overtakes it
  obtain ⟨htimers, hsecond⟩ := Prod.mk.inj hfirst
  obtain ⟨s', hs', hstatus⟩ := Attended.exists_of_map_eq_ok hsecond
  have hnotice : s.engine.Notice 1 ⟨"", 1⟩ := by
    refine ⟨0, ?_⟩
    rw [htimers]
    exact List.mem_singleton.mpr rfl
  obtain ⟨-, -, hvoid⟩ := hends s hs
  exact ⟨s, s', hs, hnotice, hs', hstatus, hvoid .stepIn trivial s' hs' 1 ⟨"", 1⟩ hnotice⟩

end BytecodeDebugger
