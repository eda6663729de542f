import BytecodeDebugger.Proofs.Engine.Mirror
import BytecodeDebugger.Proofs.Session.Evolution
import BytecodeDebugger.Proofs.Session.Resemblance
import BytecodeDebugger.Server.Basic

/-!
# What orders do to a session

An order does one thing to a session, or only asks about it (`Order.deeds`), so that whatever holds of
sessions holds of those that a server drives.

Main statements:

* `Session.map_obey` — carrying out an order, apart from the answer;
* `Session.tells_obey`, `Session.tells_pollAt` — what an order or a poll changes is told to the clients;
* `Session.Resembles.obey` — sessions that differ by what was printed carry out an order alike.
-/

namespace BytecodeDebugger

/-- **What an order does** to a session: at most one thing. -/
def Order.deeds : Order (Except LoadError Program) → List Deed
  | .introduce => []
  | .launch (.error _) _ => []
  | .launch (.ok program) stopOnEntry => [.launch program stopOnEntry]
  | .toggleBreakpoint file line => [.operation (.toggleBreakpoint file line)]
  | .toggleStops => [.operation .toggleStops]
  | .stepIn => [.operation .stepIn]
  | .stepOver => [.operation .stepOver]
  | .stepOut => [.operation .stepOut]
  | .resume => [.operation .resume]
  | .pause => [.operation .pause]
  | .autoStep => [.operation .autoStep]
  | .currentState => []
  | .disconnect => []

namespace Session

section Orders

variable (fuel : Nat) (s : Session Machine)

theorem undertakeAll_singleton (deed : Deed) :
    s.undertakeAll fuel [deed] = s.undertake fuel deed := by
  unfold undertakeAll
  cases s.undertake fuel deed <;> rfl

/-- **Carrying out an order** is doing what it asks for. -/
theorem map_obey (order : Order (Except LoadError Program)) :
    (s.obey fuel order).map Prod.snd = s.undertakeAll fuel order.deeds := by
  have hsilently : ∀ x : Except Stop (Session Machine), (silently x).map Prod.snd = x := by
    intro x
    cases x <;> rfl
  have hthrough : ∀ {α : Type} (x : Except Stop (α × Session Machine))
      (f : α × Session Machine → Answer),
      (x.map fun p => (f p, p.2)).map Prod.snd = x.map Prod.snd := by
    intro α x f
    cases x <;> rfl
  -- most orders are a single deed
  have hone : ∀ {order : Order (Except LoadError Program)} {deed : Deed}, order.deeds = [deed] →
      (s.obey fuel order).map Prod.snd = s.undertake fuel deed →
      (s.obey fuel order).map Prod.snd = s.undertakeAll fuel order.deeds := by
    intro order deed hdeeds hdone
    rw [hdeeds, undertakeAll_singleton]
    exact hdone
  cases order with
  | introduce | currentState | disconnect => rfl
  | launch program stopOnEntry =>
    cases program with
    | error e => rfl
    | ok program => exact hone rfl (hthrough _ _)
  | toggleBreakpoint file line =>
    refine hone rfl ?_
    unfold obey undertake perform toggle Engine.toggledBreakpoint
    dsimp only
    cases s.engine.toggleBreakpoint file line with
    | error reason => rfl
    | ok toggled => cases toggled <;> rfl
  | toggleStops | pause => exact hone rfl rfl
  | stepIn | stepOver | stepOut | resume => exact hone rfl (hsilently _)
  | autoStep => exact hone rfl (hthrough _ _)

/-! ### Orders that end -/

/-- **A toggle of a line beyond every list is not answered**, -/
theorem obey_beyond {fuel : Nat} {file : String} {line : Nat} (hline : Text.maxLength < line) :
    s.obey fuel (.toggleBreakpoint file line) = .error .overflow := by
  unfold obey Engine.toggleBreakpoint
  dsimp only
  rw [Breakpoints.toggle_beyond _ _ hline]
  rfl

/-- that of any other line but line 0 with success, -/
theorem obey_toggle (file : String) {line : Nat} (hpositive : line ≠ 0)
    (hroom : line ≤ Text.maxLength) :
    ∃ body s', s.obey fuel (.toggleBreakpoint file line) = .ok (.ok body, s') := by
  obtain ⟨isSet, b, htoggle⟩ := s.engine.breakpoints.exists_toggle file hpositive hroom
  unfold obey Engine.toggleBreakpoint
  dsimp only
  rw [htoggle]
  exact ⟨_, _, rfl⟩

/-- and a launch is not answered if the program runs and there is no room for a call of the main
function. -/
theorem launch_overflow {program : Program} (hs : s.engine.status = .running)
    (hfits : ¬Closure.Fits ⟨program.chunk.main, [], program.file⟩) (stopOnEntry : Bool) :
    s.launch (fuel + 1) program stopOnEntry = .error .overflow := by
  have hcall : ∀ e : Engine, e.status = .running →
      Session.execute (Machine.interpreter (fuel + 1)) ⟨e, (s.vm.load program.chunk program.file).2⟩
        (.function (s.vm.load program.chunk program.file).1) [] = .error .overflow := by
    intro e he
    have hmain : (s.vm.load program.chunk program.file).2.callable?
        (.function (s.vm.load program.chunk program.file).1) =
          some (.closure ⟨program.chunk.main, [], program.file⟩) := Array.getElem?_push_size
    unfold execute attend
    dsimp only [Machine.interpreter]
    rw [if_pos he, Machine.call_overflow hmain hfits]
    rfl
  -- neither what is shown of the source nor the pause concerns the status
  obtain ⟨_, _, _, _, _, _, _, _, hloaded, -⟩ := Engine.tweaks_fileLoaded s.engine program.file
    program.chunk.sourcePath fun _ => program.source
  have hrunning : (s.engine.fileLoaded program.file program.chunk.sourcePath
      fun _ => program.source).2.status = .running := by
    rw [hloaded]
    exact hs
  cases stopOnEntry with
  | false => exact hcall _ hrunning
  | true =>
    obtain ⟨_, _, _, _, _, _, _, _, hpaused, -⟩ := Engine.tweaks_pause (s.engine.fileLoaded
      program.file program.chunk.sourcePath fun _ => program.source).2
    refine hcall _ ?_
    rw [hpaused]
    exact hrunning

end Orders

/-! ### What is told -/

/-- **What an order changes is told.** -/
theorem tells_obey {fuel : Nat} {s s' : Session Machine} {order : Order (Except LoadError Program)}
    {answer : Answer} (hs' : s.obey fuel order = .ok (answer, s')) : s.engine.Tells s'.engine := by
  have hdone : s.undertakeAll fuel order.deeds = .ok s' := by
    rw [← map_obey, hs']
    rfl
  exact (evolves_undertakeAll hdone).tells

section Polls

variable {σ : Type} {I : Interpreter σ} {s s' : Session σ}

/-- **What a poll changes is told**, for whichever time it is. -/
theorem tells_pollAt {now : Time} {budget : Nat} (hs' : s.pollAt I now budget = .ok s') :
    s.engine.Tells s'.engine := by
  refine pollAt_relates (R := fun s s' => s.engine.Tells s'.engine) (fun s => .refl s.engine)
    (fun _ _ _ => .trans) (fun _ _ => .silent rfl rfl) (fun s task s' hdone => ?_) hs'
  cases hdone with
  | nothing => exact .refl _
  | @announces location _ =>
    have htold := Engine.tells_transition s.engine .suspended
      { location := some location
        snapshot := some (Snapshot.build s.engine.config I s.vm s.engine.resumeStack) }
    unfold enterSuspended setEngine
    dsimp only
    -- the next automatic step is put off in secret
    split
    · exact htold.trans (.silent rfl rfl)
    · exact htold
  | steps _ hstep =>
    have hperform : s.perform I .stepIn = .ok s' := hstep
    rw [← Chronicle.outcome_perform] at hperform
    have hfollows : Chronicle.Follows Engine.Still s.engine (Chronicle.perform I s .stepIn)
        fun s => s.engine := Chronicle.follows_perform I s .stepIn fun _ h => by cases h
    exact (hfollows.evolves hperform).tells

end Polls

/-! ### Without a client -/

namespace Resembles

variable {R : Reporting} {s s' : Session Machine}

theorem undertakeAll (h : s.Resembles (Machine.Resembles R) s') (fuel : Nat) (deeds : List Deed) :
    Outcomes (Session.Resembles (Machine.Resembles R)) (s.undertakeAll fuel deeds)
      (s'.undertakeAll fuel deeds) := by
  induction deeds generalizing s s' with
  | nil => exact .done h
  | cons deed deeds ih => exact (h.undertake fuel deed).bind fun s₁ s₁' h₁ => ih h₁

/-- **An order is carried out alike**, whatever was printed before. -/
theorem obey (h : s.Resembles (Machine.Resembles R) s') (fuel : Nat)
    (order : Order (Except LoadError Program)) :
    Outcomes (Session.Resembles (Machine.Resembles R)) ((s.obey fuel order).map Prod.snd)
      ((s'.obey fuel order).map Prod.snd) := by
  rw [map_obey, map_obey]
  exact h.undertakeAll fuel _

end Resembles

end Session

end BytecodeDebugger
