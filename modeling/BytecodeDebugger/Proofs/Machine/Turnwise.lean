import BytecodeDebugger.Proofs.Machine.Walk

/-!
# What holds turn by turn

A run under the debugger takes turns, and in each of them one of four things happens: the innermost
frame is held up, its instruction runs, the frame is left behind its last instruction, or the run
fails. `Turnwise` lists what has to be proved about them, for something that is said about the engine
and the stack as long as the run goes on. Nothing is said about the machine, since the opcode of an
instruction tells what becomes of the stack (`Machine.StackStep`), and nothing about failures, which
are dealt with when the run is over.

Main statements: `Turnwise.run`, `Turnwise.call` and `Turnwise.runFrame` conclude what holds of the
visits of a run, whether it ends or not, and of the engine when it ends.
-/

namespace BytecodeDebugger.Machine

open Attended

/-- **What has to be proved turn by turn**: `J` as long as the run goes on, `V` of its visits, and `H`
when a frame was held up. -/
structure Turnwise (J : Engine → List FrameId → Prop) (V : Visit → Prop) (H : Engine → Prop) :
    Prop where
  visit : ∀ {e : Engine} {site : Site} {callers : List FrameId}, e.status = .running →
    e.parked = [] → J e (site.frame :: callers) → site.coroutineResuming = false → V ⟨e, site⟩
  held : ∀ {e : Engine} {site : Site} {callers : List FrameId}, e.status = .running →
    e.parked = [] → J e (site.frame :: callers) → H (e.hold site callers)
  passed : ∀ {m : Machine} {e : Engine} {a : Activation} {i : Instruction} {current : FrameId}
    {callers stack : List FrameId}, e.status = .running → e.parked = [] → J e (current :: callers) →
    e.shouldSuspend (siteOf current a i) = false → StackStep m current callers i.code stack →
    J ((e.passBy (siteOf current a i)).instructionDone current i.code) stack
  left : ∀ {e : Engine} {current : FrameId} {callers : List FrameId}, J e (current :: callers) →
    J (e.instructionDone current Op.returnCode) callers

/-- **What holds at the end of a run.** -/
def EndsWith (J : Engine → List FrameId → Prop) (H : Engine → Prop) : RunResult → Engine → Prop
  | .ok .suspended, e => H e
  | .ok (.completed _), e => J e []
  | .error _, _ => True

/-- What holds after a turn: the run goes on, or it is over. -/
def Leaves (J : Engine → List FrameId → Prop) (H : Engine → Prop) : Turn → Engine → Prop
  | .goOn stack _, e => J e stack
  | .finish result _, e => EndsWith J H result e

/-- **What holds of a run**, whether it ends or not. -/
structure Goes (J : Engine → List FrameId → Prop) (V : Visit → Prop) (H : Engine → Prop)
    (t : Attended (RunResult × Machine)) (e : Engine) : Prop where
  visits : ∀ v ∈ visits (t.consultations Engine.reply e), V v
  ends : ∀ x e', t.run Engine.reply e = .ok (x, e') → EndsWith J H x.1 e'

variable {J : Engine → List FrameId → Prop} {V : Visit → Prop} {H : Engine → Prop} {m : Machine}
  {ground : SortedMap FrameId Activation} {stack : List FrameId} {current : FrameId}
  {callers : List FrameId} {inner : InnerCall} {e e' : Engine}

/-- Where no instruction is asked about, only the end matters. -/
theorem Goes.unvisited {t : Attended (RunResult × Machine)} (ht : t.AsksNoSite)
    (hends : ∀ x e', t.run Engine.reply e = .ok (x, e') → EndsWith J H x.1 e') :
    Goes J V H t e where
  visits v hv := by
    rw [ht.visits] at hv
    cases hv
  ends := hends

namespace Turnwise

variable (h : Turnwise J V H)

include h

/-- The visit of a turn, if it has one. -/
theorem ahead (hruns : m.Runs ground (current :: callers)) (hs : e.status = .running)
    (hp : e.parked = []) (hj : J e (current :: callers)) :
    ∀ v ∈ (m.ahead (current :: callers)).toList.map (Visit.mk e), V v := by
  intro v hv
  obtain ⟨site, hsite, rfl⟩ := List.mem_map.mp hv
  obtain ⟨a, ha⟩ := hruns.live current List.mem_cons_self
  rw [ahead_cons ha, Option.mem_toList] at hsite
  obtain ⟨i, -, rfl⟩ := Option.map_eq_some_iff.mp hsite
  exact h.visit hs hp hj rfl

/-- **A turn**: what was said holds of the stack it leaves, unless it holds a frame up or fails. -/
theorem turn (hinner : InnerKeeps inner) (hruns : m.Runs ground (current :: callers))
    (hs : e.status = .running) (hp : e.parked = []) (hj : J e (current :: callers)) {t : Turn}
    (hturn : (turn inner m (current :: callers)).run Engine.reply e = .ok (t, e')) :
    Leaves J H t e' := by
  -- a turn that does not fail completes its run if it does not go on
  have hrest : ∀ {t : Turn}, (Machine.turn inner m (current :: callers)).detach = .ok t →
      t.error? = none → J e' t.stack → Leaves J H t e' := by
    intro t halone hsuccess hj'
    obtain ⟨horderly, -⟩ := turn_keeps hinner hruns (by simp) halone
    cases t with
    | goOn stack m₁ => exact hj'
    | finish result m₁ =>
      cases result with
      | error error => cases hsuccess
      | ok outcome =>
        cases outcome with
        | suspended => exact absurd rfl horderly.1
        | completed values => exact hj'
  cases turn_attends hinner hruns hturn with
  | held a i ha hi hheld =>
    show H (e.hold (siteOf current a i) callers)
    exact h.held hs hp hj
  | passed a i t ha hi hpasses halone hsuccess =>
    have hstack := turn_stack ha halone hsuccess
    rw [Activation.nextCode_some hi] at hstack
    exact hrest halone hsuccess (h.passed hs hp hj hpasses hstack)
  | left a t ha hi halone hsuccess =>
    have hstack := turn_stack ha halone hsuccess
    rw [Activation.nextCode_none hi] at hstack
    refine hrest halone hsuccess ?_
    rw [hstack.of_return]
    exact h.left hj
  | failed => trivial

/-- **A run.** -/
theorem run {fuel : Nat} (hruns : m.Runs ground stack) (hne : stack ≠ [])
    (hs : e.status = .running) (hp : e.parked = []) (hj : J e stack) :
    Goes J V H (run fuel stack m) e := by
  -- turn by turn, with the engine that the turns so far have left
  induction fuel generalizing stack m e with
  | zero => exact .unvisited trivial fun _ _ hrun => by cases hrun
  | succ fuel ih =>
    obtain ⟨current, callers, rfl⟩ := List.exists_cons_of_ne_nil hne
    have hinner := innerKeeps_call fuel
    have hahead := h.ahead hruns hs hp hj
    -- what is left of the run after a turn that ends
    have hrest : ∀ t e₁, (Machine.turn (fun f args m => (Machine.call fuel f args m).detach) m
        (current :: callers)).run Engine.reply e = .ok (t, e₁) → Goes J V H (follow fuel t) e₁ := by
      intro t e₁ hturn
      have hj' := h.turn hinner hruns hs hp hj hturn
      cases t with
      | goOn stack₁ m₁ =>
        obtain ⟨hwork, halone⟩ := (turn_attends hinner hruns hturn).goes_on
        obtain ⟨⟨hne₁, hruns₁⟩, -⟩ := turn_keeps hinner hruns hne halone
        exact ih hruns₁ hne₁ (hwork.status.trans hs) (hwork.parked.trans hp) hj'
      | finish result m₁ => exact .unvisited trivial fun x e' hx => by cases hx; exact hj'
    constructor
    · intro v hv
      rw [visits_run_succ fuel hruns] at hv
      rcases List.mem_append.mp hv with hv | hv
      · exact hahead v hv
      · split at hv
        · next t e₁ hturn => exact (hrest t e₁ hturn).visits v hv
        · cases hv
    · intro x e' hx
      rw [run_succ] at hx
      obtain ⟨t, e₁, hturn, hx⟩ := run_bind_eq_ok.mp hx
      exact (hrest t e₁ hturn).ends x e' hx

/-- **A call** that is made while nothing is on the stack. -/
theorem call {fuel : Nat} {f : Value} {args : List Value} (hb : m.Bounded) (hs : e.status = .running)
    (hp : e.parked = []) (hentered : J e [m.nextFrame]) (hidle : J e []) :
    Goes J V H (call fuel f args m) e := by
  cases fuel with
  | zero => exact .unvisited trivial fun _ _ hcall => by cases hcall
  | succ fuel =>
    cases hf : m.callable? f with
    | none =>
      rw [call_none hf]
      exact .unvisited ⟨by simp, fun _ => trivial⟩ fun x e' hx => by cases hx; trivial
    | some callable =>
      cases callable with
      | closure closure =>
        by_cases hfits : closure.Fits
        · rw [call_closure hf hfits]
          exact h.run (Runs.entered hb closure args) (by simp) hs hp hentered
        · rw [call_overflow hf hfits]
          exact .unvisited trivial fun _ _ hcall => by cases hcall
      | host body =>
        rw [call_host hf]
        refine .unvisited (asksNoSite_hostCall _ _ _) fun x e' hx => ?_
        obtain ⟨result, m₁, r, -, hrestamp, rfl⟩ := hostCall_eq_ok.mp hx
        cases r with
        | error error => trivial
        | ok values =>
          -- only an error is raised anew
          rcases restamp_cases result with ⟨hsame, -⟩ | ⟨message, passed, -, hraise⟩
          · rw [hsame] at hrestamp
            cases hrestamp
            exact hidle
          · rw [hraise] at hrestamp
            cases hrestamp

/-- **A call chain that is entered again**, by an engine that is awake when the frames are back. -/
theorem runFrame_ends {fuel : Nat} {outermost : FrameId} {frames : List FrameId}
    (hruns : m.Runs ground (outermost :: frames).reverse) (hs : e.status = .resuming)
    (hj : J (e.handOver []) (outermost :: frames).reverse) {x : RunResult × Machine}
    (hrun : (runFrame fuel outermost m).run Engine.reply (e.handOver (frames.map .call)) =
      .ok (x, e')) : EndsWith J H x.1 e' := by
  have hlive : ∀ f ∈ outermost :: frames, ∃ a, m.frame? f = some a := fun f hf =>
    hruns.live f (List.mem_reverse.mpr hf)
  have hwoken := Engine.handOver_nil hs
  have hgoes : Goes J V H (Machine.run fuel (outermost :: frames).reverse m) (e.handOver []) := by
    refine h.run hruns (by simp) ?_ ?_ hj <;> rw [hwoken]
  exact hgoes.ends x e' (runFrame_run hs hlive hrun)

end Turnwise

end BytecodeDebugger.Machine
