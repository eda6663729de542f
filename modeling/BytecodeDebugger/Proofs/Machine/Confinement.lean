import BytecodeDebugger.Proofs.Engine.Steps
import BytecodeDebugger.Proofs.Machine.Stack
import BytecodeDebugger.Proofs.Machine.Visits

/-!
# How deep a stepped run can stop

A step over a call, or out of one, aims at a frame: until that frame is gone the run stops nowhere
else. But the frame can return, fall off its end or go down with the whole run, and then stepping has
no target any more and would stop anywhere. This file shows that it still stops no deeper than the
frame was.

Two situations follow each other (`Confined`). As long as the target is on the stack, its callers lie
below it as they did, and only the target stops, which is then the innermost frame. Once the target
is gone, at most one frame lies above what were its callers, and this frame has no barrier: it was
entered after the step began, so that nothing but an instruction that never stops gets past it.

A `CLOSE` ends the step while its target is still there, so that nothing is said about a history in
which the target ran one (`StepCourse.closed`).

Main statements:

* `Confined.step` — one turn, whatever it does to the stack;
* `run_course`, `call_course` — runs and calls, to their end or to the first stop.
-/

namespace BytecodeDebugger

/-- The instruction stands on a line with an armed breakpoint. -/
def Visit.AtBreakpoint (v : Visit) : Prop :=
  v.engine.breakpoints.stops = true ∧
    v.engine.breakpoints.flags.flagAt v.site.file v.site.line = true

/-- No frame that is still to come has a barrier. -/
def Unbarred (e : Engine) (m : Machine) : Prop :=
  ∀ f, m.nextFrame ≤ f → e.barriers.get? f = none

theorem Unbarred.mono {e e' : Engine} {m m' : Machine} (h : Unbarred e m)
    (hnext : m.nextFrame ≤ m'.nextFrame)
    (hbarriers : ∀ f, e.barriers.get? f = none → e'.barriers.get? f = none) : Unbarred e' m' :=
  fun f hf => hbarriers f (h f (Nat.le_trans hnext hf))

/-- Barriers that say what the history says are those of frames that were used. -/
theorem Tracks.unbarred {past : List Visit} {e : Engine} {m : Machine} (h : Tracks past e m) :
    Unbarred e m := by
  intro f hf
  cases hbarrier : e.barriers.get? f with
  | none => rfl
  | some l =>
    obtain ⟨before, v, after, rfl, hframe, -⟩ := h.sound f l hbarrier
    have hused := h.used v (by simp)
    rw [hframe] at hused
    exact absurd hf (Nat.not_le_of_lt hused)

/-! ### The stack of a step -/

/-- **A step is confined**: its target is on the stack with `outer` below it, or it is gone and at
most one frame, which has no barrier, lies higher than `outer` did. -/
inductive Confined (target : FrameId) (outer : List FrameId) (e : Engine) (stack : List FrameId) :
    Prop where
  | within (inner : List FrameId) (split : stack = inner ++ target :: outer)
    (aims : e.stepping.target = some (.call target))
  | beyond (aimless : e.stepping.target = none) (depth : stack.length ≤ outer.length + 1)
    (fresh : ∀ f callers, stack = f :: callers → callers.length = outer.length →
      e.barriers.get? f = none)

namespace Confined

variable {target current : FrameId} {outer callers stack : List FrameId} {e e' : Engine}
  {m : Machine} {code : UInt8}

/-- Without frames there is nothing to aim at. -/
theorem aimless (h : Confined target outer e []) : e.stepping.target = none := by
  cases h with
  | within inner split =>
    have hlength := congrArg List.length split
    simp at hlength
  | beyond aimless => exact aimless

theorem of_aimless (h : e.stepping.target = none) : Confined target outer e [] :=
  .beyond h (Nat.zero_le _) fun _ _ hc => by cases hc

/-- The first frame of a call, entered while nothing is aimed at. -/
theorem singleton (h : e.stepping.target = none) (hu : Unbarred e m) :
    Confined target outer e [m.nextFrame] := by
  refine .beyond h ?_ fun f callers hstack _ => ?_
  · exact Nat.le_add_left 1 _
  · cases hstack
    exact hu _ (Nat.le_refl _)

/-- **Where a step stops**, it stops no deeper than its target was. -/
theorem depth_of_wanted (h : Confined target outer e (current :: callers))
    (hnodup : (current :: callers).Nodup)
    (hwanted : e.stepping.target = none ∨ e.stepping.target = some (.call current)) :
    callers.length ≤ outer.length := by
  cases h with
  | beyond aimless depth => exact Nat.le_of_succ_le_succ depth
  | within inner split aims =>
    -- the frame that stops is the target, so that nothing lies above it
    have hcurrent : current = target := by
      rcases hwanted with hnone | hsome
      · rw [aims] at hnone
        cases hnone
      · rw [aims] at hsome
        cases hsome
        rfl
    cases inner with
    | nil =>
      cases split
      exact Nat.le_refl _
    | cons f inner =>
      cases split
      have hmem : current ∈ inner ++ target :: outer := by
        rw [hcurrent]
        simp
      exact absurd hmem (List.nodup_cons.mp hnodup).1

/-- The target is at work. It stays the target, unless it returns. -/
theorem target_works (aims : e.stepping.target = some (.call target))
    (hstep : Machine.StackStep m target outer code stack)
    (htarget : e'.stepping.target =
      if e.stepping.target = some (.call target) ∧ (code = Op.returnCode ∨ code = Op.closeCode) then
        none
      else e.stepping.target)
    (hclose : code ≠ Op.closeCode) : Confined target outer e' stack := by
  -- the target is given up only where its own frame returns or closes
  have hstays : code ≠ Op.returnCode → e'.stepping.target = some (.call target) := by
    intro hcode
    rw [htarget, if_neg, aims]
    rintro ⟨-, hc | hc⟩
    · exact hcode hc
    · exact hclose hc
  cases hstep with
  | stays other => exact .within [] rfl (hstays other)
  | enters call room =>
    -- an instruction that enters a frame is a call
    have hcode : code ≠ Op.returnCode := by
      intro hcode
      rw [hcode] at call
      cases call
    exact .within [_] rfl (hstays hcode)
  | leaves returns =>
    have hgone : e'.stepping.target = none := by
      rw [htarget, if_pos ⟨aims, .inl returns⟩]
    refine .beyond hgone (Nat.le_succ _) fun f callers hstack hlength => ?_
    -- the callers of the target are fewer than its depth
    rw [hstack] at hlength
    exact absurd hlength (Nat.ne_of_lt (Nat.lt_succ_self _))

/-- A frame above the target is at work. -/
theorem above_works {inner : List FrameId} (aims : e'.stepping.target = some (.call target))
    (hstep : Machine.StackStep m current (inner ++ target :: outer) code stack) :
    Confined target outer e' stack := by
  cases hstep with
  | stays other => exact .within (current :: inner) rfl aims
  | enters call room => exact .within (_ :: current :: inner) rfl aims
  | leaves returns => exact .within inner rfl aims

/-- Nothing is aimed at any more. A frame as deep as the target was has no barrier, so that it does
not get as far as a call. -/
theorem beyond_works (aimless : e.stepping.target = none) (aimless' : e'.stepping.target = none)
    (depth : callers.length ≤ outer.length)
    (fresh : callers.length = outer.length → e.barriers.get? current = none)
    (hstep : Machine.StackStep m current callers code stack)
    (hbarriers : ∀ f, e.barriers.get? f = none → e'.barriers.get? f = none)
    (hnew : e.barriers.get? m.nextFrame = none)
    (hpassed : e.stepping.target = none → e.barriers.get? current = none →
      Op.ofCode code ≠ .call) : Confined target outer e' stack := by
  cases hstep with
  | stays other =>
    refine .beyond aimless' (Nat.succ_le_succ depth) fun f callers' hstack hlength => ?_
    cases hstack
    exact hbarriers _ (fresh hlength)
  -- a call at the depth in question would have been held up, so that the caller is lower than that
  | enters call room =>
    have hlower : callers.length ≠ outer.length := fun hlength =>
      hpassed aimless (fresh hlength) call
    have hroom : callers.length + 1 ≤ outer.length := Nat.lt_of_le_of_ne depth hlower
    refine .beyond aimless' (Nat.succ_le_succ hroom) fun f callers' hstack _ => ?_
    cases hstack
    exact hbarriers _ hnew
  -- the stack is lower than the depth in question, and nothing is asked of it
  | leaves returns =>
    refine .beyond aimless' (Nat.le_succ_of_le depth) fun f callers' hstack hlength => ?_
    rw [hstack, List.length_cons, hlength] at depth
    exact absurd depth (Nat.not_succ_le_self _)

/-- **A turn keeps a step confined**, unless its target runs a `CLOSE`. The turn forgets the target
when the target returns, and adds no barriers. -/
theorem step (h : Confined target outer e (current :: callers)) (hnodup : (current :: callers).Nodup)
    (hstep : Machine.StackStep m current callers code stack)
    (htarget : e'.stepping.target =
      if e.stepping.target = some (.call current) ∧ (code = Op.returnCode ∨ code = Op.closeCode) then
        none
      else e.stepping.target)
    (hclose : current = target → code ≠ Op.closeCode)
    (hbarriers : ∀ f, e.barriers.get? f = none → e'.barriers.get? f = none)
    (hnew : e.barriers.get? m.nextFrame = none)
    (hpassed : e.stepping.target = none → e.barriers.get? current = none →
      Op.ofCode code ≠ .call) : Confined target outer e' stack := by
  -- the current frame is the target, works above it, or has left it behind
  cases h with
  | within inner split aims =>
    cases inner with
    | nil =>
      cases split
      exact target_works aims hstep htarget (hclose rfl)
    | cons f inner =>
      cases split
      -- the target lies below, and no frame is on the stack twice
      have hother : current ≠ target := by
        intro hc
        refine (List.nodup_cons.mp hnodup).1 ?_
        rw [hc]
        simp
      -- the target stays what it is
      have haims : e'.stepping.target = some (.call target) := by
        rw [htarget, if_neg, aims]
        rintro ⟨hc, -⟩
        rw [aims] at hc
        cases hc
        exact hother rfl
      exact above_works haims hstep
  | beyond aimless depth fresh =>
    have hgone : e'.stepping.target = none := by
      rw [htarget, aimless]
      simp
    exact beyond_works aimless hgone (Nat.le_of_succ_le_succ depth) (fresh current callers rfl) hstep
      hbarriers hnew hpassed

end Confined

/-! ### The course of a step -/

/-- **How a step stands** after some visits, with the engine, the machine and the stack as they are. -/
inductive StepCourse (target : FrameId) (outer : List FrameId) (history : List Visit) (e : Engine)
    (m : Machine) (stack : List FrameId) : Prop where
  /-- the target ran a `CLOSE` before anything was held up -/
  | closed (before : List Visit) (u : Visit) (after : List Visit)
    (split : history = before ++ u :: after) (unheld : ∀ w ∈ before, ¬w.Held) (passed : ¬u.Held)
    (frame : u.site.frame = target) (code : u.site.opcode = Op.closeCode)
  | goes (unheld : ∀ w ∈ history, ¬w.Held) (confined : Confined target outer e stack)
    (unbarred : Unbarred e m)
  | stopped (past : List Visit) (v : Visit) (split : history = past ++ [v])
    (unheld : ∀ w ∈ past, ¬w.Held) (held : v.Held) (stands : e.status ≠ .running)
    (innermost : e.innermost? = some (.call v.site.frame))
    (depth : ¬v.AtBreakpoint → e.parked.length ≤ outer.length + 1)

/-- Two ways to single out an element of a list. -/
theorem first_of_two {α : Type} {before after past future : List α} {x y : α}
    (h : before ++ x :: after = past ++ y :: future) : x ∈ past ∨ y ∈ before ∨ x = y := by
  -- one of the two lists ends inside the other
  rcases List.append_eq_append_iff.mp h with ⟨between, hpast, hrest⟩ | ⟨between, hbefore, hrest⟩
  · cases between with
    | nil =>
      cases hrest
      exact .inr (.inr rfl)
    | cons z between =>
      cases hrest
      rw [hpast]
      exact .inl (by simp)
  · cases between with
    | nil =>
      cases hrest
      exact .inr (.inr rfl)
    | cons z between =>
      cases hrest
      rw [hbefore]
      exact .inr (.inl (by simp))

namespace StepCourse

variable {target : FrameId} {outer stack stack' : List FrameId} {past future : List Visit} {v : Visit}
  {e e' : Engine} {m m' : Machine}

/-- **The first stop of a step** is where the session stands, and it is no deeper than its target
was. -/
theorem depth_of_first (h : StepCourse target outer (past ++ v :: future) e m stack)
    (hpast : ∀ w ∈ past, ¬w.Held) (hv : v.Held) (hline : ¬v.AtBreakpoint)
    (hclose : ∀ w ∈ past, w.site.frame = target → w.site.opcode ≠ Op.closeCode) :
    e.innermost? = some (.call v.site.frame) ∧ e.parked.length ≤ outer.length + 1 := by
  cases h with
  | closed before u after split unheld passed frame code =>
    -- the target closed before the first visit that is held up, which was excluded
    exfalso
    rcases first_of_two split with hmem | hmem | heq
    · exact unheld v hmem hv
    · exact hclose u hmem frame code
    · exact passed (heq ▸ hv)
  | goes unheld => exact absurd hv (unheld v (by simp))
  | stopped before u split unheld held stands innermost depth =>
    rcases first_of_two split with hmem | hmem | heq
    · exact absurd hv (unheld v hmem)
    · -- the stop would be an earlier one
      exact absurd held (hpast u hmem)
    · subst heq
      exact ⟨innermost, depth hline⟩

/-- Whatever follows a `CLOSE` in the target, nothing is said about it. -/
theorem closes {u : Visit} (hpast : ∀ w ∈ past, ¬w.Held) (hu : ¬u.Held)
    (hframe : u.site.frame = target) (hcode : u.site.opcode = Op.closeCode) :
    StepCourse target outer (past ++ u :: future) e m stack :=
  .closed past u future rfl hpast hu hframe hcode

/-- What is no concern of the step. -/
theorem of_eq (h : StepCourse target outer past e m stack)
    (hs : e'.status = .running → e.status = .running)
    (hp : e'.parked = e.parked) (hb : e'.barriers = e.barriers)
    (ht : e'.stepping.target = e.stepping.target) (hnext : m.nextFrame ≤ m'.nextFrame) :
    StepCourse target outer past e' m' stack := by
  cases h with
  | closed before u after split unheld passed frame code =>
    exact .closed before u after split unheld passed frame code
  | goes unheld confined unbarred =>
    -- the same barriers, so that a frame without one has none
    have hbarriers : ∀ f, e.barriers.get? f = none → e'.barriers.get? f = none := by
      intro f hf
      rw [hb]
      exact hf
    refine .goes unheld ?_ (unbarred.mono hnext hbarriers)
    cases confined with
    | within inner split aims => exact .within inner split (ht.trans aims)
    | beyond aimless depth fresh =>
      exact .beyond (ht.trans aimless) depth fun f callers hstack hlength =>
        hbarriers f (fresh f callers hstack hlength)
  | stopped before u split unheld held stands innermost depth =>
    refine .stopped before u split unheld held (fun hrunning => stands (hs hrunning)) ?_ fun hline => ?_
    · unfold Engine.innermost? Engine.resumeStack
      rw [hp]
      exact innermost
    · rw [hp]
      exact depth hline

end StepCourse

namespace Machine

open Attended

variable {m : Machine} {ground : SortedMap FrameId Activation} {stack : List FrameId}
  {current target : FrameId} {callers outer : List FrameId} {inner : InnerCall} {e e' : Engine}
  {past : List Visit}

/-! ### Turns -/

/-- What a turn adds to the barriers of the engine: nothing. -/
theorem barriers_passed (e : Engine) (a : Activation) (i : Instruction) (f : FrameId)
    (hf : e.barriers.get? f = none) :
    ((e.passBy (siteOf current a i)).instructionDone current i.code).barriers.get? f = none := by
  by_cases hc : f = current
  · rw [hc, Tracks.barrier_passed, if_neg]
    rintro ⟨-, hsome⟩
    rw [hc] at hf
    rw [hf] at hsome
    cases hsome
  · rw [Tracks.barrier_passed_other e a i hc]
    exact hf

/-- The end of a frame adds none either. -/
theorem barriers_left (e : Engine) (f : FrameId) (hf : e.barriers.get? f = none) :
    (e.instructionDone current Op.returnCode).barriers.get? f = none := by
  change (e.barriers.erase current).get? f = none
  rw [SortedMap.get?_erase]
  split
  · rfl
  · exact hf

section Courses

variable (hs : e.status = .running) (hp : e.parked = []) (he : e.Steps)
  (hpast : ∀ w ∈ past, ¬w.Held) (hc : Confined target outer e (current :: callers))
  (hu : Unbarred e m) (hnodup : (current :: callers).Nodup)

include hs hp hpast hc hnodup

/-- **A frame is held up.** Unless a breakpoint asks for it, it is the step that does. -/
theorem course_held {a : Activation} {i : Instruction}
    (hheld : e.shouldSuspend (siteOf current a i) = true) :
    StepCourse target outer (past ++ [⟨e, siteOf current a i⟩]) (e.hold (siteOf current a i) callers) m
      [] := by
  have hv : Visit.Held ⟨e, siteOf current a i⟩ := (Visit.held_iff _).mpr hheld
  -- what is held up was wanted, either by the target or by a breakpoint
  have hwants : e.wantsStop (siteOf current a i) = true := by
    unfold Engine.shouldSuspend at hheld
    grind
  refine .stopped past _ rfl hpast hv ?_ ?_ fun hline => ?_
  · rw [Engine.hold_eq hs hp]
    simp
  · rw [Engine.hold_eq hs hp]
    simp [Engine.innermost?, Engine.resumeStack]
  · have hwanted : Visit.Wanted ⟨e, siteOf current a i⟩ := (Visit.wanted_iff _).mpr hwants
    rcases hwanted with ⟨-, htarget⟩ | hbreakpoint
    · have hdepth := hc.depth_of_wanted hnodup htarget
      rw [Engine.hold_eq hs hp]
      simpa using hdepth
    · exact absurd hbreakpoint hline

include he hu

/-- **An instruction runs**, unless it is a `CLOSE` of the target. -/
theorem course_passed {a : Activation} {i : Instruction} {t : Turn}
    (hpasses : e.shouldSuspend (siteOf current a i) = false)
    (hstack : StackStep m current callers i.code t.stack)
    (hnext : m.nextFrame ≤ t.machine.nextFrame) :
    StepCourse target outer (past ++ [⟨e, siteOf current a i⟩])
      ((e.passBy (siteOf current a i)).instructionDone current i.code) t.machine t.stack := by
  have hv : ¬Visit.Held ⟨e, siteOf current a i⟩ := by
    rw [Visit.held_iff]
    exact Bool.eq_false_iff.mp hpasses
  -- behind a `CLOSE` of the target itself the course is over
  by_cases hclose : current = target ∧ i.code = Op.closeCode
  · exact .closes hpast hv hclose.1 hclose.2
  · -- what is not held up although nothing bars it is one of the two opcodes that never stop
    have hpassed : e.stepping.target = none → e.barriers.get? current = none →
        Op.ofCode i.code ≠ .call := by
      intro haimless hbarrier hcall
      have hsite : e.barriers.get? (siteOf current a i).frame = none := hbarrier
      have hopcode := he.passes hs hp haimless hsite rfl hpasses
      rcases hopcode with hopcode | hopcode
      · rw [show i.code = Op.closeCode from hopcode] at hcall
        cases hcall
      · rw [show i.code = Op.closureCode from hopcode] at hcall
        cases hcall
    have hsteps : (e.passBy (siteOf current a i)).Steps := he.of_eq rfl rfl rfl
    have htarget := hsteps.target_instructionDone current i.code
    have hconfined := hc.step hnodup hstack htarget
      (fun hcurrent hcode => hclose ⟨hcurrent, hcode⟩) (barriers_passed e a i)
      (hu _ (Nat.le_refl _)) hpassed
    refine .goes (fun w hw => ?_) hconfined (hu.mono hnext (barriers_passed e a i))
    rcases List.mem_append.mp hw with hw | hw
    · exact hpast w hw
    · rw [List.mem_singleton.mp hw]
      exact hv

omit hs hp

/-- **A frame is left** behind its last instruction. -/
theorem course_left {t : Turn} (hstack : StackStep m current callers Op.returnCode t.stack)
    (hnext : m.nextFrame ≤ t.machine.nextFrame) :
    StepCourse target outer past (e.instructionDone current Op.returnCode) t.machine t.stack := by
  have htarget := he.target_instructionDone current Op.returnCode
  have hconfined := hc.step hnodup hstack htarget (fun _ => by decide) (barriers_left e)
    (hu _ (Nat.le_refl _)) (fun _ _ => by decide)
  exact .goes hpast hconfined (hu.mono hnext (barriers_left e))

end Courses

/-- **The course of one turn.** Nothing is held up in a turn that fails. -/
theorem turn_course (hinner : InnerKeeps inner) (h : m.Runs ground (current :: callers))
    (hs : e.status = .running) (hp : e.parked = []) (he : e.Steps) (hpast : ∀ w ∈ past, ¬w.Held)
    (hc : Confined target outer e (current :: callers)) (hu : Unbarred e m) {t : Turn}
    (hturn : (turn inner m (current :: callers)).run Engine.reply e = .ok (t, e')) :
    StepCourse target outer (past ++ visits ((turn inner m (current :: callers)).consultations
      Engine.reply e)) e' t.machine t.stack ∨
    (t.error? ≠ none ∧ ∀ w ∈ past ++ visits ((turn inner m (current :: callers)).consultations
      Engine.reply e), ¬w.Held) := by
  obtain ⟨a, ha⟩ := h.live current List.mem_cons_self
  rw [visits_turn hinner h ha e]
  -- a turn is held up in front of its instruction, passes it, leaves the frame or fails
  cases turn_attends hinner h hturn with
  | held b i hb hi hheld =>
    rw [ha] at hb
    cases hb
    rw [hi]
    exact .inl (course_held hs hp hpast hc h.nodup hheld)
  | passed b i _ hb hi hpasses alone success hmoves hgone =>
    rw [ha] at hb
    cases hb
    have hstack := turn_stack ha alone success
    rw [Activation.nextCode_some hi] at hstack
    rw [hi]
    exact .inl (course_passed hs hp he hpast hc hu h.nodup hpasses hstack hmoves.grows.nextFrame)
  | left b _ hb hi alone success hmoves hgone =>
    rw [ha] at hb
    cases hb
    have hstack := turn_stack ha alone success
    rw [Activation.nextCode_none hi] at hstack
    rw [hi, Option.toList_none, List.map_nil, List.append_nil]
    exact .inl (course_left he hpast hc hu h.nodup hstack hmoves.grows.nextFrame)
  | failed err m₁ x₀ e₁ l' alone alike works =>
    refine .inr ⟨by simp [Turn.error?], fun w hw => ?_⟩
    rcases List.mem_append.mp hw with hw | hw
    · exact hpast w hw
    · -- a frame that is held up does not fail
      obtain ⟨i, hi, rfl⟩ := List.mem_map.mp hw
      rw [Visit.held_iff]
      intro hheld
      cases turn_suspended ha (Option.mem_toList.mp hi) hheld hturn

/-! ### Runs -/

/-- **What is known when a run is over**: how its step stands, or that it failed with nothing held
up. -/
def Settled (target : FrameId) (outer : List FrameId) (history : List Visit) (e : Engine)
    (x : RunResult × Machine) : Prop :=
  StepCourse target outer history e x.2 [] ∨ (Failed x ∧ ∀ w ∈ history, ¬w.Held)

/-- **The course of a run**, to its end or to its first stop. -/
theorem run_course {fuel : Nat} (h : m.Runs ground stack) (hne : stack ≠ [])
    (hs : e.status = .running) (hp : e.parked = []) (he : e.Steps)
    (hc : StepCourse target outer past e m stack) {x : RunResult × Machine}
    (hrun : (run fuel stack m).run Engine.reply e = .ok (x, e')) :
    Settled target outer (past ++ visits ((run fuel stack m).consultations Engine.reply e)) e' x := by
  -- turn by turn, until the target runs a `CLOSE`, a frame is held up or the run is over
  induction fuel generalizing stack m e past with
  | zero => cases hrun
  | succ fuel ih =>
    cases hc with
    | closed before u after split unheld passed frame code =>
      rw [split, List.append_assoc, List.cons_append]
      exact .inl (.closes unheld passed frame code)
    | stopped before u split unheld held stands => exact absurd hs stands
    | goes unheld confined unbarred =>
      obtain ⟨current, callers, rfl⟩ := List.exists_cons_of_ne_nil hne
      have hinner := innerKeeps_call fuel
      rw [run_succ] at hrun ⊢
      obtain ⟨t, e₁, hturn, hrest⟩ := run_bind_eq_ok.mp hrun
      have hcourse := turn_course hinner h hs hp he unheld confined unbarred hturn
      have hsteps : e₁.Steps := run_preserves (fun call _ h => h.reply call) _ he hturn
      rw [consultations_bind, hturn, visits_append, ← List.append_assoc]
      cases t with
      | goOn stack' m₁ =>
        obtain ⟨hwork, halone⟩ := (turn_attends hinner h hturn).goes_on
        -- the stack that the turn leaves is in order, and the engine runs with nothing parked
        obtain ⟨horderly, -⟩ := turn_keeps hinner h hne halone
        rcases hcourse with hcourse | ⟨hfailed, -⟩
        · exact ih horderly.2 horderly.1 (hwork.status.trans hs) (hwork.parked.trans hp) hsteps
            hcourse hrest
        · exact absurd rfl hfailed
      | finish result m₁ =>
        cases hrest
        change Settled target outer (_ ++ []) e' (result, m₁)
        rw [List.append_nil]
        rcases hcourse with hcourse | ⟨hfailed, hunheld⟩
        · exact .inl hcourse
        · refine .inr ⟨?_, hunheld⟩
          cases result with
          | error err => exact ⟨err, rfl⟩
          | ok outcome => exact absurd rfl hfailed

/-- A machine at rest after something that no step has to do with. -/
theorem Settled.of_eq (hc : StepCourse target outer past e m []) {x : RunResult × Machine}
    (hs : e'.status = e.status) (hp : e'.parked = e.parked) (hb : e'.barriers = e.barriers)
    (ht : e'.stepping.target = e.stepping.target) (hnext : m.nextFrame ≤ x.2.nextFrame) :
    Settled target outer (past ++ []) e' x := by
  rw [List.append_nil]
  exact .inl (hc.of_eq (fun hrunning => hs.symm.trans hrunning) hp hb ht hnext)

theorem hostCall_course {inner : InnerCall} (hinner : InnerKeeps inner) {body : Host} (hb : m.Bounded)
    (hc : StepCourse target outer past e m []) {x : RunResult × Machine}
    (hcall : (hostCall inner body m).run Engine.reply e = .ok (x, e')) :
    Settled target outer
      (past ++ visits ((hostCall inner body m).consultations Engine.reply e)) e' x := by
  rw [(asksNoSite_hostCall inner body m).visits e]
  obtain ⟨result, m₁, r, hbody, hrestamp, rfl⟩ := hostCall_eq_ok.mp hcall
  obtain ⟨-, hgrows⟩ := host_run_keeps hinner body hb hbody
  -- an error may be raised anew, which concerns the error log only
  rcases restamp_cases result with ⟨hsame, -⟩ | ⟨message, passed, -, hraise⟩
  · rw [hsame] at hrestamp
    cases hrestamp
    exact .of_eq hc rfl rfl rfl rfl hgrows.nextFrame
  · rw [hraise] at hrestamp
    cases hrestamp
    exact .of_eq hc rfl rfl rfl rfl hgrows.nextFrame

/-- **The course of a call** that is made while nothing is on the stack. -/
theorem call_course {fuel : Nat} {f : Value} {args : List Value} (hb : m.Bounded)
    (hs : e.status = .running) (hp : e.parked = []) (he : e.Steps)
    (hc : StepCourse target outer past e m []) {x : RunResult × Machine}
    (hcall : (call fuel f args m).run Engine.reply e = .ok (x, e')) :
    Settled target outer (past ++ visits ((call fuel f args m).consultations Engine.reply e)) e' x := by
  cases fuel with
  | zero => cases hcall
  | succ fuel =>
    cases hf : m.callable? f with
    | none =>
      rw [call_none hf] at hcall ⊢
      cases hcall
      exact .of_eq hc rfl rfl rfl rfl (Nat.le_refl _)
    | some callable =>
      cases callable with
      | host body =>
        rw [call_host hf] at hcall ⊢
        exact hostCall_course (innerKeeps_call fuel) hb hc hcall
      | closure closure =>
        have hfits := fits_of_run hf hcall
        rw [call_closure hf hfits] at hcall ⊢
        -- a call starts with a stack of its own, on which there is no target yet
        have hentered : StepCourse target outer past e (m.enter closure args).2 [m.nextFrame] := by
          cases hc with
          | closed before u after split unheld passed frame code =>
            exact .closed before u after split unheld passed frame code
          | stopped before u split unheld held stands => exact absurd hs stands
          | goes unheld confined unbarred =>
            exact .goes unheld (.singleton confined.aimless unbarred)
              (unbarred.mono (Nat.le_succ _) fun _ hf => hf)
        exact run_course (Runs.entered hb closure args) (by simp) hs hp he hentered hcall

/-- **The course of a call chain** that is entered again. -/
theorem runFrame_course {fuel : Nat} {outermost : FrameId} {frames : List FrameId}
    (h : m.Runs ground (outermost :: frames).reverse) (hs : e.status = .resuming) (he : e.Steps)
    (hc : StepCourse target outer past (e.handOver []) m (outermost :: frames).reverse)
    {x : RunResult × Machine}
    (hrun : (runFrame fuel outermost m).run Engine.reply (e.handOver (frames.map .call)) =
      .ok (x, e')) :
    Settled target outer (past ++ visits ((runFrame fuel outermost m).consultations Engine.reply
      (e.handOver (frames.map .call)))) e' x := by
  have hlive : ∀ f ∈ outermost :: frames, ∃ a, m.frame? f = some a := fun f hf =>
    h.live f (List.mem_reverse.mpr hf)
  have hwoken := Engine.handOver_nil hs
  have hsteps : (e.handOver []).Steps := by
    rw [hwoken]
    exact he.of_eq rfl rfl rfl
  -- the frames were all taken back
  obtain ⟨r, e₁, hrebuild, -⟩ := run_bind_eq_ok.mp (runFrame_eq fuel outermost m ▸ hrun)
  rw [visits_runFrame hs h.live hrebuild]
  refine run_course h (by simp) ?_ ?_ hsteps hc (runFrame_run hs hlive hrun) <;> rw [hwoken]

end Machine

end BytecodeDebugger
