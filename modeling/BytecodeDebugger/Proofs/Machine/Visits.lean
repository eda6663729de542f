import BytecodeDebugger.Proofs.Engine.Barriers
import BytecodeDebugger.Proofs.Machine.Attendance

/-!
# The visits of a run

Among the questions that a run puts to the engine, one for each instruction is about the instruction
that comes next. These are the visits of the run. They are read off the questions, so that they are
there also for a run that stops without a result.

Main statements, for an engine whose barriers say what the history says (`Tracks`):

* `turn_visits` — a turn visits the next instruction, if there is one, and the engine decides about
  it by the history;
* `run_visits`, `call_visits`, `runFrame_visits` — so it does about all visits of a run, of a call
  and of a call chain that is entered again. When these end, the barriers say what the longer history
  says (`Known`).
-/

namespace BytecodeDebugger

/-- The visits among questions. -/
def visits (questions : List (Engine × HookCall)) : List Visit :=
  questions.filterMap fun
    | (e, .before site) => some ⟨e, site⟩
    | _ => none

theorem visits_append (qs qs' : List (Engine × HookCall)) :
    visits (qs ++ qs') = visits qs ++ visits qs' := List.filterMap_append

/-- **The engine decided by the history, at every visit.** -/
def Rightly (history : List Visit) : Prop :=
  ∀ past v future, history = past ++ v :: future → v.StopsAfter past

namespace Rightly

variable {history past : List Visit} {v : Visit}

theorem nil : Rightly [] := by
  intro past v future h
  exact absurd h (by simp)

/-- One more visit. -/
theorem snoc (h : Rightly past) (hv : v.StopsAfter past) : Rightly (past ++ [v]) := by
  intro before w after heq
  -- the visit in question is the new one, or one of the history
  rcases List.eq_nil_or_concat after with rfl | ⟨after', u, rfl⟩
  · obtain ⟨rfl, hlast⟩ := List.append_inj' heq rfl
    cases hlast
    exact hv
  · rw [List.concat_eq_append] at heq
    have heq' : past ++ [v] = (before ++ w :: after') ++ [u] := by
      rw [heq, List.append_assoc, List.cons_append]
    obtain ⟨hpast, -⟩ := List.append_inj' heq' rfl
    exact h before w after' hpast

/-- What holds of the whole history holds of the history so far. -/
theorem of_append {future : List Visit} (h : Rightly (past ++ future)) : Rightly past := by
  intro before v after heq
  refine h before v (after ++ future) ?_
  rw [heq, List.append_assoc, List.cons_append]

end Rightly

namespace Attended

variable {α β : Type}

/-- Without a question about a next instruction there are no visits. -/
theorem AsksNoSite.visits {t : Attended α} (h : t.AsksNoSite) (e : Engine) :
    visits (t.consultations Engine.reply e) = [] := by
  refine List.filterMap_eq_nil_iff.mpr fun q hq => ?_
  obtain ⟨e', call⟩ := q
  have hcall := h.not_mem e _ hq
  cases call with
  | before site => exact absurd rfl (hcall site)
  | after | park | takeResume | isResuming | raise => rfl

theorem asksNoSite_ofExcept (x : Except Stop α) : (ofExcept x).AsksNoSite := by
  cases x <;> trivial

end Attended

namespace Machine

open Attended

variable {m : Machine} {ground : SortedMap FrameId Activation} {stack : List FrameId}
  {current : FrameId} {callers : List FrameId} {a : Activation} {inner : InnerCall}
  {e e' : Engine} {past : List Visit}

/-! ### Where no instruction is asked about -/

theorem asksNoSite_failTurn (m : Machine) (stack : List FrameId) (error : ExecError) :
    (m.failTurn stack error).AsksNoSite := asksNoSite_ofExcept _

theorem asksNoSite_reportDone (m : Machine) (stack : List FrameId) (current : FrameId) (pc : Nat)
    (code : UInt8) {next : Attended Turn} (h : next.AsksNoSite) :
    (m.reportDone stack current pc code next).AsksNoSite := by
  refine ⟨by simp, fun reply => ?_⟩
  cases reply with
  | none => exact h
  | some error => exact asksNoSite_failTurn m stack _

theorem asksNoSite_reportFailed (m : Machine) (stack : List FrameId) (current : FrameId) (pc : Nat)
    (code : UInt8) (error : RuntimeError) :
    (m.reportFailed stack current pc code error).AsksNoSite := by
  refine ⟨by simp, fun reply => ?_⟩
  cases reply with
  | none => trivial
  | some error => exact asksNoSite_failTurn m stack _

theorem asksNoSite_parkAll {α : Type} (frames : List FrameId) {rest : Attended α}
    (h : rest.AsksNoSite) : (parkAll frames rest).AsksNoSite := by
  induction frames with
  | nil => exact h
  | cons frame frames ih => exact ⟨by simp, fun _ => ih⟩

theorem asksNoSite_restamp (result : Except ExecError (List Value)) :
    (restamp result).AsksNoSite := by
  unfold restamp
  split
  · exact ⟨by simp, fun _ => trivial⟩
  · trivial

theorem asksNoSite_rebuild (n : Nat) (taken : List FrameId) : (rebuild n taken).AsksNoSite := by
  -- it asks for one entry after another
  induction n generalizing taken with
  | zero => trivial
  | succ n ih =>
    refine ⟨by simp, fun reply => ?_⟩
    cases reply with
    | none => trivial
    | some entry =>
      cases entry with
      | call frame => exact ih _
      | coroutine id => trivial

/-- Once its instruction may run, a turn asks about no other. -/
theorem Tail.asksNoSite {pc : Nat} {code : UInt8} {tail : Attended Turn}
    (h : Tail inner m ground stack current pc code tail) : tail.AsksNoSite := by
  cases h with
  | stop reason => trivial
  | lost reason m₁ => exact asksNoSite_reportDone _ _ _ _ _ trivial
  | done m₁ t => exact asksNoSite_reportDone _ _ _ _ _ trivial
  | overflow m₁ m₂ message =>
    exact asksNoSite_reportDone _ _ _ _ _ ⟨by simp, fun _ => trivial⟩
  | fault m₁ message => exact ⟨by simp, fun _ => asksNoSite_reportFailed _ _ _ _ _ _⟩
  | foreign m₁ error => exact asksNoSite_reportFailed _ _ _ _ _ _
  | host m₁ error => exact asksNoSite_failTurn _ _ _

/-! ### Turns -/

/-- **A turn visits the next instruction**, if there is one. -/
theorem visits_turn (hinner : InnerKeeps inner) (h : m.Runs ground (current :: callers))
    (ha : m.frame? current = some a) (e : Engine) :
    visits ((turn inner m (current :: callers)).consultations Engine.reply e) =
      a.closure.proto.instructions[a.pc]?.toList.map fun i => ⟨e, siteOf current a i⟩ := by
  rcases turn_cases hinner h ha with ⟨hi, htail⟩ | ⟨i, tail, hi, htail, hturn⟩
  · rw [hi]
    exact htail.asksNoSite.visits e
  · rw [hi, hturn]
    -- whatever the engine decides, no other instruction is asked about
    have hgate : ∀ decision, (gate m current callers a tail decision).AsksNoSite := by
      intro decision
      cases decision with
      | suspend pc => exact asksNoSite_parkAll callers trivial
      | proceed => exact htail.asksNoSite
    exact congrArg (Visit.mk e (siteOf current a i) :: ·) ((hgate _).visits _)

/-- **What is known after a run**: the ids in the history were used, and unless the run failed, the
barriers say what the history says. -/
structure Known (history : List Visit) (e : Engine) (m : Machine) (failed : Prop) : Prop where
  used : ∀ v ∈ history, v.site.frame < m.nextFrame
  tracks : ¬failed → Tracks history e m

/-- **A run that is watched**: with its visits the history is longer, the engine decides about them by
the history, and it knows the history afterwards. -/
structure Watched {α : Type} (past : List Visit) (e : Engine) (t : Attended α) (final : α → Machine)
    (failed : α → Prop) : Prop where
  rightly : Rightly (past ++ visits (t.consultations Engine.reply e))
  known : ∀ a e', t.run Engine.reply e = .ok (a, e') →
    Known (past ++ visits (t.consultations Engine.reply e)) e' (final a) (failed a)

/-- A run that stops, or one that ends at once, has no visits. -/
theorem Watched.unvisited {α : Type} {t : Attended α} {final : α → Machine} {failed : α → Prop}
    (hr : Rightly past) (ht : visits (t.consultations Engine.reply e) = [])
    (hk : ∀ a e', t.run Engine.reply e = .ok (a, e') → Known past e' (final a) (failed a)) :
    Watched past e t final failed := by
  refine ⟨?_, fun a e' ha => ?_⟩
  · rw [ht, List.append_nil]
    exact hr
  · rw [ht, List.append_nil]
    exact hk a e' ha

/-- **One turn decides by the history.** -/
theorem turn_visits (hinner : InnerKeeps inner) (h : m.Runs ground (current :: callers))
    (hs : e.status = .running) (hp : e.parked = []) (ht : Tracks past e m) (hr : Rightly past) :
    Watched past e (turn inner m (current :: callers)) Turn.machine fun t => t.error? ≠ none := by
  obtain ⟨a, ha⟩ := h.live current List.mem_cons_self
  have hvisits := visits_turn hinner h ha e
  -- the id of the frame is in use, visited or not
  have hused : ∀ v ∈ past ++ a.closure.proto.instructions[a.pc]?.toList.map
      (fun i => (⟨e, siteOf current a i⟩ : Visit)), v.site.frame < m.nextFrame := by
    cases a.closure.proto.instructions[a.pc]? with
    | none => simpa using ht.used
    | some i => exact ht.used_snoc h.bounded ha
  constructor
  · rw [hvisits]
    cases a.closure.proto.instructions[a.pc]? with
    | none => simpa using hr
    | some i => exact hr.snoc (ht.stopsAfter hs hp ha)
  · intro t e' hturn
    rw [hvisits]
    cases turn_attends hinner h hturn with
    | held b i hb hi hheld =>
      rw [ha] at hb
      cases hb
      rw [hi] at hused ⊢
      exact ⟨hused, fun _ => ht.held h.bounded ha hheld callers⟩
    | passed b i _ hb hi hpasses alone success hmoves hgone =>
      rw [ha] at hb
      cases hb
      rw [hi]
      have htracks := ht.passed h.bounded ha hpasses hmoves hgone
      exact ⟨htracks.used, fun _ => htracks⟩
    | left b _ hb hi alone success hmoves hgone =>
      rw [ha] at hb
      cases hb
      rw [hi, Option.toList_none, List.map_nil, List.append_nil]
      have htracks := ht.left hmoves hgone
      exact ⟨htracks.used, fun _ => htracks⟩
    | failed err m₁ x₀ e₁ l' alone alike works =>
      -- the barriers of a failed run are dropped when the engine deals with the failure
      obtain ⟨-, hgrows⟩ := turn_keeps hinner h (by simp) alone
      have hnext : m₁.nextFrame = x₀.2.nextFrame := alike.frames.2.2
      refine ⟨fun v hv => ?_, fun hc => absurd (by simp [Turn.error?]) hc⟩
      change v.site.frame < m₁.nextFrame
      rw [hnext]
      exact Nat.lt_of_lt_of_le (hused v hv) hgrows.nextFrame

/-- As long as a run goes on the engine works, and the turn is the same without it. -/
theorem Attends.goes_on {m₁ : Machine} (h : Attends inner m current callers e (.goOn stack m₁) e') :
    e.Works e' ∧ (turn inner m (current :: callers)).detach = .ok (.goOn stack m₁) := by
  cases h with
  | passed a i _ _ _ _ alone =>
    have hpass := Engine.works_passBy e (siteOf current a i)
    exact ⟨hpass.trans (Engine.works_instructionDone _ current i.code), alone⟩
  | left a _ _ _ alone => exact ⟨Engine.works_instructionDone e current Op.returnCode, alone⟩

/-! ### Runs -/

/-- A run that failed. -/
def Failed (x : RunResult × Machine) : Prop := ∃ error, x.1 = .error error

/-- **A run decides by the history.** -/
theorem run_visits {fuel : Nat} (h : m.Runs ground stack) (hne : stack ≠ [])
    (hs : e.status = .running) (hp : e.parked = []) (ht : Tracks past e m) (hr : Rightly past) :
    Watched past e (run fuel stack m) Prod.snd Failed := by
  -- turn by turn; each turn makes the history longer by its visit, if it has one
  induction fuel generalizing stack m e past with
  | zero => exact .unvisited hr rfl fun _ _ hrun => by cases hrun
  | succ fuel ih =>
    obtain ⟨current, callers, rfl⟩ := List.exists_cons_of_ne_nil hne
    have hinner := innerKeeps_call fuel
    have hturn := turn_visits hinner h hs hp ht hr
    rw [run_succ]
    cases hrun : (turn (fun f args m => (call fuel f args m).detach) m
        (current :: callers)).run Engine.reply e with
    | error reason =>
      -- the turn does not end, so that the run has its visit and no other
      refine ⟨?_, fun x e' hx => ?_⟩
      · rw [consultations_bind, hrun, List.append_nil]
        exact hturn.rightly
      · obtain ⟨t, e₁, hturn, -⟩ := run_bind_eq_ok.mp hx
        rw [hrun] at hturn
        cases hturn
    | ok p =>
      obtain ⟨t, e₁⟩ := p
      have hknown := hturn.known t e₁ hrun
      -- what is left of the run is watched with the longer history
      have hrest : Watched (past ++ visits ((turn (fun f args m => (call fuel f args m).detach) m
          (current :: callers)).consultations Engine.reply e)) e₁
          (follow fuel t) Prod.snd Failed := by
        have hattends := turn_attends hinner h hrun
        cases t with
        | goOn stack' m₁ =>
          obtain ⟨hwork, halone⟩ := hattends.goes_on
          obtain ⟨horderly, -⟩ := turn_keeps hinner h hne halone
          exact ih horderly.2 horderly.1 (hwork.status.trans hs) (hwork.parked.trans hp)
            (hknown.tracks (by simp [Turn.error?])) hturn.rightly
        | finish result m₁ =>
          -- the run is over with this turn
          refine .unvisited hturn.rightly rfl fun x e' hx => ?_
          cases hx
          refine ⟨hknown.used, fun hf => hknown.tracks ?_⟩
          cases result with
          | ok outcome => simp [Turn.error?]
          | error error => exact absurd ⟨error, rfl⟩ hf
      refine ⟨?_, fun x e' hx => ?_⟩
      · rw [consultations_bind, hrun, visits_append, ← List.append_assoc]
        exact hrest.rightly
      · rw [consultations_bind, hrun, visits_append, ← List.append_assoc]
        obtain ⟨t', e₂, hturn', hx⟩ := run_bind_eq_ok.mp hx
        rw [hrun] at hturn'
        cases hturn'
        exact hrest.known x e' hx

/-- The calls that a host function makes are not attended. -/
theorem asksNoSite_hostCall (inner : InnerCall) (body : Host) (m : Machine) :
    (hostCall inner body m).AsksNoSite :=
  (asksNoSite_ofExcept _).bind fun p => (asksNoSite_restamp p.1).bind fun _ => trivial

/-- The work of a host function is not visited. -/
theorem hostCall_visits (hinner : InnerKeeps inner) {body : Host} (hb : m.Bounded)
    (ht : Tracks past e m) (hr : Rightly past) :
    Watched past e (hostCall inner body m) Prod.snd Failed := by
  refine .unvisited hr ((asksNoSite_hostCall _ _ _).visits e) fun x e' hx => ?_
  obtain ⟨result, m₁, r, hbody, hrestamp, rfl⟩ := hostCall_eq_ok.mp hx
  obtain ⟨hframes, hgrows⟩ := host_run_keeps hinner body hb hbody
  have htracks := ht.of_grows hframes hgrows
  rcases restamp_cases result with ⟨hsame, -⟩ | ⟨message, passed, -, hraise⟩
  · -- the engine was not asked anything
    rw [hsame] at hrestamp
    cases hrestamp
    exact ⟨htracks.used, fun _ => htracks⟩
  · rw [hraise] at hrestamp
    cases hrestamp
    exact ⟨htracks.used, fun hf => absurd ⟨_, rfl⟩ hf⟩

/-- **A call decides by the history.** -/
theorem call_visits {fuel : Nat} {f : Value} {args : List Value} (hb : m.Bounded)
    (hs : e.status = .running) (hp : e.parked = []) (ht : Tracks past e m) (hr : Rightly past) :
    Watched past e (call fuel f args m) Prod.snd Failed := by
  cases fuel with
  | zero => exact .unvisited hr rfl fun _ _ hrun => by cases hrun
  | succ fuel =>
    cases hf : m.callable? f with
    | none =>
      rw [call_none hf]
      refine .unvisited hr rfl fun x e' hx => ?_
      cases hx
      exact ⟨ht.used, fun hf => absurd ⟨_, rfl⟩ hf⟩
    | some callable =>
      cases callable with
      | closure closure =>
        by_cases hfits : closure.Fits
        · rw [call_closure hf hfits]
          exact run_visits (Runs.entered hb closure args) (by simp) hs hp (ht.entered closure args) hr
        · rw [call_overflow hf hfits]
          -- a function without room for its registers visits nothing
          exact .unvisited hr rfl fun _ _ hrun => by cases hrun
      | host body =>
        rw [call_host hf]
        exact hostCall_visits (innerKeeps_call fuel) hb ht hr

/-- The visits of a call chain that is entered again are those of its run. -/
theorem visits_runFrame {fuel : Nat} {outer : FrameId} {frames : List FrameId}
    (hs : e.status = .resuming) (hlive : ∀ f ∈ (outer :: frames).reverse, ∃ a, m.frame? f = some a)
    {r : Except ExecError (List FrameId)} {e₁ : Engine}
    (hrebuild : (rebuild fuel [outer]).run Engine.reply (e.handOver (frames.map .call)) = .ok (r, e₁)) :
    visits ((runFrame fuel outer m).consultations Engine.reply (e.handOver (frames.map .call))) =
      visits ((run fuel (outer :: frames).reverse m).consultations Engine.reply (e.handOver [])) := by
  obtain ⟨rfl, rfl⟩ := run_rebuild hs hrebuild
  have hstack : frames.reverse ++ [outer] = (outer :: frames).reverse := by simp
  have hnone : visits ((rebuild fuel [outer]).consultations Engine.reply
      (e.handOver (frames.map .call))) = [] := (asksNoSite_rebuild fuel [outer]).visits _
  rw [runFrame_eq, consultations_bind, hrebuild, visits_append, hnone, List.nil_append]
  dsimp only
  rw [hstack, enterAgain_live hlive]

/-- **Entering a call chain again decides by the history**: taking the frames back is not a visit. -/
theorem runFrame_visits {fuel : Nat} {outer : FrameId} {frames : List FrameId}
    (h : m.Runs ground (outer :: frames).reverse) (hs : e.status = .resuming)
    (ht : Tracks past e m) (hr : Rightly past) :
    Watched past (e.handOver (frames.map .call)) (runFrame fuel outer m) Prod.snd Failed := by
  have hlive : ∀ f ∈ outer :: frames, ∃ a, m.frame? f = some a := fun f hf =>
    h.live f (List.mem_reverse.mpr hf)
  have hwoken := Engine.handOver_nil hs
  -- once all frames are back the engine is running, and the run is watched like any other
  have hrest : Watched past (e.handOver []) (run fuel (outer :: frames).reverse m) Prod.snd Failed := by
    refine run_visits h (by simp) ?_ ?_ (ht.of_barriers ?_) hr <;> rw [hwoken]
  cases hrun : (rebuild fuel [outer]).run Engine.reply (e.handOver (frames.map .call)) with
  | error reason =>
    -- the frames could not be taken back, so that nothing ran
    have hstop : ∀ x e', (runFrame fuel outer m).run Engine.reply (e.handOver (frames.map .call)) ≠
        .ok (x, e') := by
      intro x e' hx
      rw [runFrame_eq] at hx
      obtain ⟨r, e₁, hr, -⟩ := run_bind_eq_ok.mp hx
      rw [hrun] at hr
      cases hr
    refine .unvisited hr ?_ fun x e' hx => absurd hx (hstop x e')
    rw [runFrame_eq, consultations_bind, hrun, List.append_nil]
    exact (asksNoSite_rebuild fuel [outer]).visits _
  | ok p =>
    obtain ⟨r, e₁⟩ := p
    obtain ⟨rfl, rfl⟩ := run_rebuild hs hrun
    have hvisits := visits_runFrame hs h.live hrun
    refine ⟨?_, fun x e' hx => ?_⟩
    · rw [hvisits]
      exact hrest.rightly
    · rw [hvisits]
      exact hrest.known x e' (runFrame_run hs hlive hx)

end Machine

end BytecodeDebugger
