import BytecodeDebugger.Playback
import BytecodeDebugger.Proofs.Session.Steady
import Mathlib.Data.List.Infix

/-!
# Host calls are made once each and in order

A call that comes while the program stands still waits until it runs again. The engine's queue is the
only place where calls are kept, so that nothing is lost when a replayed call stops or fails:
everything submitted was started or waits, in this order (`Accounted`). This holds for every
interpreter, whatever it asks the engine on the way, because no answer of the engine touches the
queue.

Main statements:

* `Accounted.steady` — what was submitted is what was started followed by what waits, at every
  question the interpreter asks and whenever an operation ends;
* `Session.calls_in_order` — for any operations of a new session, the calls that were started are at
  every moment a prefix of the calls that were submitted, and after operations that ended the others
  wait, none of them while the program runs.
-/

namespace BytecodeDebugger

/-- The calls submitted so far. -/
def submittedCalls (h : List Happening) : List DeferredCall :=
  h.filterMap fun
    | .submitted call => some call
    | _ => none

/-- The calls started so far. -/
def startedCalls (h : List Happening) : List DeferredCall :=
  h.filterMap fun
    | .started call => some call
    | _ => none

/-- **Every call submitted was started or waits.** -/
def Accounted (h : List Happening) (e : Engine) : Prop :=
  submittedCalls h = startedCalls h ++ e.waiting

/-- **What holds at every moment**: calls are started in the order in which they were submitted, and
an engine that is asked something has all others waiting. -/
structure InOrder (h : List Happening) : Prop where
  started : startedCalls h <+: submittedCalls h
  asked : ∀ past e question, h = past ++ [.consulted e question] → Accounted past e

section Lists

variable (h h' : List Happening) (call : DeferredCall)

theorem submittedCalls_append :
    submittedCalls (h ++ h') = submittedCalls h ++ submittedCalls h' := List.filterMap_append

theorem startedCalls_append : startedCalls (h ++ h') = startedCalls h ++ startedCalls h' :=
  List.filterMap_append

/-- Questions are no calls. -/
theorem calls_consulted (questions : List (Engine × HookCall)) :
    submittedCalls (questions.map fun p => .consulted p.1 p.2) = [] ∧
      startedCalls (questions.map fun p => .consulted p.1 p.2) = [] := by
  induction questions with
  | nil => exact ⟨rfl, rfl⟩
  | cons q questions ih => exact ih

end Lists

namespace Accounted

variable {σ α : Type} {h : List Happening}

theorem submit {e : Engine} (hacc : Accounted h e) (call : DeferredCall) :
    Accounted (h ++ [.submitted call]) { e with waiting := e.waiting ++ [call] } := by
  unfold Accounted at hacc ⊢
  rw [submittedCalls_append, startedCalls_append, hacc]
  change startedCalls h ++ e.waiting ++ [call] = startedCalls h ++ [] ++ (e.waiting ++ [call])
  rw [List.append_nil, List.append_assoc]

/-- The first call that waits is started. -/
theorem start {e : Engine} {call : DeferredCall} {waiting : List DeferredCall}
    (hacc : Accounted h e) (hw : e.waiting = call :: waiting) :
    Accounted (h ++ [.started call]) { e with waiting } := by
  unfold Accounted at hacc ⊢
  rw [submittedCalls_append, startedCalls_append, hacc, hw]
  change startedCalls h ++ call :: waiting ++ [] = startedCalls h ++ [call] ++ waiting
  rw [List.append_nil, List.append_assoc, List.singleton_append]

theorem of_waiting {e e' : Engine} (hacc : Accounted h e) (hw : e'.waiting = e.waiting) :
    Accounted h e' := by
  unfold Accounted
  rw [hw]
  exact hacc

/-- What is accounted for was started in order. -/
theorem ordered {e : Engine} (hacc : Accounted h e) : startedCalls h <+: submittedCalls h :=
  ⟨e.waiting, hacc.symm⟩

theorem consulted {e : Engine} (hacc : Accounted h e) (questions : List (Engine × HookCall)) :
    Accounted (h ++ questions.map fun p => .consulted p.1 p.2) e := by
  obtain ⟨hsubmitted, hstarted⟩ := calls_consulted questions
  unfold Accounted at hacc ⊢
  rw [submittedCalls_append, startedCalls_append, hsubmitted, hstarted, List.append_nil,
    List.append_nil]
  exact hacc

/-- Running the interpreter neither adds calls nor takes any away. -/
theorem attend {s : Session σ} {entry : σ → Attended (α × σ)} (hs : InOrder h)
    (hacc : Accounted h s.engine) :
    (Chronicle.attend s entry).Meets InOrder h fun h p => InOrder h ∧ Accounted h p.2.engine := by
  -- no answer touches the queue, so that it is the same at every question
  have hkeep : ∀ (call : HookCall) (e : Engine), e.waiting = s.engine.waiting →
      (Engine.reply call e).2.waiting = s.engine.waiting :=
    fun call e he => (Chronicle.waiting_reply call e).trans he
  have hmoment : ∀ questions : List (Engine × HookCall),
      (∀ q ∈ questions, q.1.waiting = s.engine.waiting) →
      InOrder (h ++ questions.map fun q => .consulted q.1 q.2) := by
    intro questions hasked
    refine ⟨(hacc.consulted questions).ordered, fun past e question heq => ?_⟩
    rcases List.eq_nil_or_concat questions with rfl | ⟨before, last, rfl⟩
    · rw [List.map_nil, List.append_nil] at heq
      exact hs.asked past e question heq
    · -- the last thing that happened is the last of the questions
      rw [List.concat_eq_append] at heq hasked
      rw [List.map_append, ← List.append_assoc] at heq
      obtain ⟨rfl, hlast⟩ := List.append_inj' heq rfl
      cases hlast
      exact (hacc.consulted before).of_waiting (hasked last (by simp))
  have hrun : (Chronicle.attend s entry).Meets InOrder h fun h' p =>
      p.2.engine.waiting = s.engine.waiting ∧ ∃ questions : List (Engine × HookCall),
        h' = h ++ questions.map fun q => .consulted q.1 q.2 :=
    .attend (P := fun e => e.waiting = s.engine.waiting) hkeep rfl hmoment
  refine ⟨hrun.always, fun p hp => ?_⟩
  obtain ⟨hw, questions, hquestions⟩ := hrun.ends p hp
  have hacc' : Accounted (h ++ (Chronicle.attend s entry).happenings) p.2.engine := by
    rw [hquestions]
    exact (hacc.consulted questions).of_waiting hw
  exact ⟨hrun.always _ (List.prefix_refl _), hacc'⟩

/-- Something that is no question happened. -/
theorem inOrder_snoc {e : Engine} {x : Happening} (hacc : Accounted (h ++ [x]) e)
    (hx : ∀ e question, x ≠ .consulted e question) : InOrder (h ++ [x]) := by
  refine ⟨hacc.ordered, fun past e question heq => ?_⟩
  obtain ⟨-, hlast⟩ := List.append_inj' heq rfl
  cases hlast
  exact absurd rfl (hx e question)

theorem waiting_popOutermost {e e' : Engine} {entry : Resumable}
    (h : e.popOutermost = some (entry, e')) : e'.waiting = e.waiting := by
  unfold Engine.popOutermost at h
  split at h
  · cases h
  · cases h
    split
    · exact Engine.waiting_transition _ _ _
    · rfl

theorem waiting_afterResuming (e : Engine) (origin : Option StackEntry) (result : RunResult) :
    (e.afterResuming origin result).waiting = e.waiting := by
  -- giving up what is parked does not make or drop calls
  have habandon : ∀ e : Engine, e.abandonSuspension.waiting = e.waiting := by
    intro e
    unfold Engine.abandonSuspension
    dsimp only
    by_cases hparked : e.parked.isEmpty = true
    · rw [if_pos hparked]
      split
      · rfl
      · exact Engine.waiting_transition _ _ _
    · rw [if_neg hparked]
      split
      · rfl
      · exact Engine.waiting_transition _ _ _
  cases result with
  | error error => exact (habandon _).trans (Chronicle.waiting_fail e error origin)
  | ok outcome =>
    cases outcome with
    | suspended => rfl
    | completed values =>
      change (if e.status = .resuming then e.abandonSuspension else e).waiting = e.waiting
      split
      · exact habandon e
      · rfl

/-- **Every call is accounted for, whatever is done**, for every interpreter. -/
theorem steady (I : Interpreter σ) :
    Steady I True InOrder fun h s => InOrder h ∧ Accounted h s.engine where
  safe hs := hs.1
  tweak hs he := by
    obtain ⟨_, _, _, _, _, _, _, _, rfl, -⟩ := he
    exact hs
  report _ hs he := by
    obtain ⟨_, _, rfl, -⟩ := he
    exact hs
  announce location hs _ := by
    refine ⟨hs.1, hs.2.of_waiting ?_⟩
    unfold Session.enterSuspended Session.setEngine
    dsimp only
    split <;> exact Engine.waiting_transition _ _ _
  submit call hs := ⟨(hs.2.submit call).inOrder_snoc (by simp), hs.2.submit call⟩
  start := by
    intro h s call waiting hs _ hw
    have hacc := hs.2.start hw
    refine .bind (.note (Q := fun past _ => past = h ++ [.started call]) hs.1
      (hacc.inOrder_snoc (by simp)) rfl) ?_
    rintro past - rfl
    refine (attend (hacc.inOrder_snoc (by simp)) hacc).bind fun past p hp => ?_
    obtain ⟨result, s'⟩ := p
    cases result with
    | ok outcome => exact .pure hp.1 hp
    | error error =>
      -- a call that failed is not made again, and those behind it wait as before
      have hw : (s'.engine.fail error none).2.waiting = s'.engine.waiting :=
        Chronicle.waiting_fail _ _ _
      exact .pure hp.1 ⟨hp.1, hp.2.of_waiting hw⟩
  reenter := by
    intro h s hs
    unfold Chronicle.reenter
    dsimp only
    have hresuming := Engine.waiting_transition s.engine .resuming {}
    -- re-entry starts no call, whether or not there is something to enter
    cases hpop : (s.engine.transition .resuming {}).popOutermost with
    | none =>
      have hw := (Engine.waiting_transition (s.engine.transition .resuming {}) .running {}).trans hresuming
      exact .pure hs.1 ⟨hs.1, hs.2.of_waiting hw⟩
    | some p =>
      obtain ⟨entry, e⟩ := p
      have hw := (waiting_popOutermost hpop).trans hresuming
      refine (attend hs.1 (hs.2.of_waiting hw)).bind fun past p hp => ?_
      exact .pure hp.1 ⟨hp.1, hp.2.of_waiting (waiting_afterResuming _ _ _)⟩

end Accounted

/-! ### What is submitted -/

namespace Chronicle

variable {σ α β : Type}

/-- A chronicle of two parts in neither of which a call is submitted. -/
theorem submitted_bind {c : Chronicle α} {f : α → Chronicle β}
    (hc : submittedCalls c.happenings = []) (hf : ∀ a, submittedCalls (f a).happenings = []) :
    submittedCalls (c >>= f).happenings = [] := by
  change submittedCalls (c.bind f).happenings = []
  unfold Chronicle.bind
  split
  · rw [submittedCalls_append, hc, hf, List.nil_append]
  · exact hc

section Pieces

variable (I : Interpreter σ) (s : Session σ)

theorem submitted_start (call : DeferredCall) (waiting : List DeferredCall) :
    submittedCalls (start I s call waiting).happenings = [] := by
  refine submitted_bind rfl fun _ => submitted_bind (calls_consulted _).1 fun p => ?_
  obtain ⟨result, s'⟩ := p
  cases result <;> rfl

theorem submitted_drainCalls (calls : List DeferredCall) :
    submittedCalls (drainCalls I s calls).happenings = [] := by
  induction calls generalizing s with
  | nil => rfl
  | cons call calls ih =>
    unfold drainCalls
    split
    · exact submitted_bind (submitted_start I s call calls) ih
    · rfl

theorem submitted_reenter : submittedCalls (reenter I s).happenings = [] := by
  unfold reenter
  dsimp only
  split
  · rfl
  · exact submitted_bind (calls_consulted _).1 fun _ => rfl

theorem submitted_resumeThread : submittedCalls (resumeThread I s).happenings = [] :=
  submitted_bind (submitted_reenter I s) fun _ => submitted_drainCalls I _ _

theorem submitted_resume : submittedCalls (resume I s).happenings = [] :=
  submitted_bind (submitted_resumeThread I _) fun _ => rfl

theorem submitted_pollAt (now : Time) (fuel : Nat) :
    submittedCalls (pollAt I now fuel s).happenings = [] := by
  -- over the tasks: a step that is made submits nothing
  induction fuel generalizing s with
  | zero => rfl
  | succ fuel ih =>
    unfold pollAt
    split
    · rfl
    · next task timers _ =>
      refine submitted_bind ?_ ih
      cases task with
      | enterSuspended epoch location =>
        unfold runTask
        dsimp only
        split <;> rfl
      | autoStep generation =>
        unfold runTask
        dsimp only
        split
        · exact submitted_resumeThread I _
        · rfl

/-- An operation submits the call that it is made of, and no other. -/
theorem submitted_perform (op : Operation) :
    submittedCalls (perform I s op).happenings = op.submitted?.toList := by
  cases op with
  | submit call =>
    change submittedCalls (.submitted call :: _) = [call]
    change call :: submittedCalls _ = [call]
    split
    · exact congrArg (call :: ·) (submitted_start I s call _)
    · rfl
  | stepIn => exact submitted_resumeThread I _
  | stepOver => exact submitted_resumeThread I _
  | stepOut =>
    change submittedCalls (stepOut I s).happenings = []
    unfold stepOut
    split
    · exact submitted_resumeThread I _
    · exact submitted_resume I s
  | resume => exact submitted_resume I s
  | autoStep =>
    change submittedCalls (perform I s .autoStep).happenings = []
    unfold perform
    dsimp only
    split
    · exact submitted_resumeThread I _
    · rfl
  | poll budget => exact submitted_pollAt I s _ budget
  | pause | toggleBreakpoint _ _ | toggleStops | setClock _ | fileLoaded _ _ _ | takeUnsaved
  | reportUncaught _ | reportText _ => rfl

/-- The calls submitted are those of the operations, up to one that does not end. -/
theorem submitted_performAll (ops : List Operation) :
    submittedCalls (performAll I s ops).happenings <+: ops.filterMap Operation.submitted? ∧
      ∀ s', (performAll I s ops).outcome = .ok s' →
        submittedCalls (performAll I s ops).happenings = ops.filterMap Operation.submitted? := by
  -- operation by operation; one that does not end cuts the list short
  induction ops generalizing s with
  | nil => exact ⟨List.prefix_refl _, fun _ _ => rfl⟩
  | cons op ops ih =>
    have hop := submitted_perform I s op
    -- an operation submits one call or none
    have hcons : (op :: ops).filterMap Operation.submitted? =
        op.submitted?.toList ++ ops.filterMap Operation.submitted? := by
      cases h : op.submitted? <;> simp [h]
    change submittedCalls ((perform I s op).bind fun s => performAll I s ops).happenings <+: _ ∧
      ∀ s', ((perform I s op).bind fun s => performAll I s ops).outcome = .ok s' →
        submittedCalls ((perform I s op).bind fun s => performAll I s ops).happenings = _
    rw [hcons]
    unfold Chronicle.bind
    split
    · next s₁ _ =>
      obtain ⟨hpre, hall⟩ := ih s₁
      rw [submittedCalls_append, hop]
      refine ⟨(List.prefix_append_right_inj _).mpr hpre, fun s' hs' => ?_⟩
      rw [hall s' hs']
    · rw [hop]
      exact ⟨List.prefix_append _ _, fun s' hs' => by cases hs'⟩

end Pieces

end Chronicle

/-! ### The main result -/

/-- **Host calls are neither lost, duplicated nor reordered**, for every interpreter and any
operations of a new session. At every moment, also in an operation that does not end, the calls
started are a prefix of the calls submitted so far, and an engine that is asked something has all
others waiting. After operations that ended, every call submitted was started or waits, in this
order, and none waits while the program runs. -/
theorem Session.calls_in_order {σ : Type} (I : Interpreter σ) (config : Config)
    (saved : SavedSession) (clock : Time) (vm : σ) (ops : List Operation) :
    (∀ past, past <+: (Chronicle.performAll I ⟨.start config saved clock, vm⟩ ops).happenings →
      InOrder past) ∧
    submittedCalls (Chronicle.performAll I ⟨.start config saved clock, vm⟩ ops).happenings <+:
      ops.filterMap Operation.submitted? ∧
    ∀ s, Session.performAll I ⟨.start config saved clock, vm⟩ ops = .ok s →
      ops.filterMap Operation.submitted? =
        startedCalls (Chronicle.performAll I ⟨.start config saved clock, vm⟩ ops).happenings ++
          s.engine.waiting ∧
      (s.engine.status = .running → s.engine.waiting = []) := by
  set start : Session σ := ⟨.start config saved clock, vm⟩ with hstart
  -- nothing has happened and nothing waits, and every operation keeps the order
  have hfresh : InOrder [] := ⟨List.prefix_refl _, fun past e question h => by simp at h⟩
  have hrest : AtEase (fun h s => InOrder h ∧ Accounted h s.engine) [] start :=
    ⟨⟨hfresh, rfl⟩, fun _ => rfl⟩
  have hmeets := (Accounted.steady I).performAll hrest ops fun _ _ _ => trivial
  obtain ⟨hpre, hall⟩ := Chronicle.submitted_performAll I start ops
  refine ⟨hmeets.always, hpre, fun s hs => ?_⟩
  rw [← Chronicle.outcome_performAll] at hs
  obtain ⟨⟨-, hacc⟩, hidle⟩ := hmeets.ends s hs
  exact ⟨(hall s hs).symm.trans hacc, hidle⟩

/-- A call that is held up, and two that wait behind it, the first of which fails. -/
def heldUp : Player where
  frames := SortedMap.ofList [(0, {})]
  scripts := [[.before 0 0 1 0 false none (some [])], [.complete []],
    [.fail { message := "refused" }], [.complete []]]

/-- All three calls are made, although the second one fails. -/
theorem Session.calls_behind_a_failure :
    ∃ s, Session.performAll Player.interpreter ⟨.start {} {} 0, heldUp⟩
        [.pause, .submit ⟨.nil, []⟩, .submit ⟨.boolean true, []⟩, .submit ⟨.boolean false, []⟩,
          .resume] = .ok s ∧
      startedCalls (Chronicle.performAll Player.interpreter ⟨.start {} {} 0, heldUp⟩
        [.pause, .submit ⟨.nil, []⟩, .submit ⟨.boolean true, []⟩, .submit ⟨.boolean false, []⟩,
          .resume]).happenings =
        [⟨.nil, []⟩, ⟨.boolean true, []⟩, ⟨.boolean false, []⟩] := by
  obtain ⟨-, -, hends⟩ := Session.calls_in_order Player.interpreter {} {} 0 heldUp
    [.pause, .submit ⟨.nil, []⟩, .submit ⟨.boolean true, []⟩, .submit ⟨.boolean false, []⟩, .resume]
  -- the first call fails when it is resumed, and the two behind it are made
  have hrunning : (Session.performAll Player.interpreter ⟨.start {} {} 0, heldUp⟩
      [.pause, .submit ⟨.nil, []⟩, .submit ⟨.boolean true, []⟩, .submit ⟨.boolean false, []⟩,
        .resume]).map (fun s => s.engine.status) = .ok .running := by
    decide +kernel
  obtain ⟨s, hs, hstatus⟩ := Attended.exists_of_map_eq_ok hrunning
  obtain ⟨hcalls, hidle⟩ := hends s hs
  rw [hidle hstatus, List.append_nil] at hcalls
  exact ⟨s, hs, hcalls.symm⟩

end BytecodeDebugger
