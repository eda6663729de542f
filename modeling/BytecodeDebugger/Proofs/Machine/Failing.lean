import BytecodeDebugger.Proofs.Machine.Attendance
import Mathlib.Data.List.Forall2

/-!
# Instructions that fail

An instruction fails in one of few ways (`Mishap`, `Machine.Raises`), and what the turn does then is
the same for every hook (`Mishap.tail`). Unless too many calls are in progress, the error ends with a
trace: the frames that it had passed already, the instruction that failed, and the call in which each
caller waits. Two hooks are of interest, the engine and the one that never interferes; what they have
to do for that is small (`Attended.Tracing`).

A run is followed from one moment between two turns to the next (`Machine.Moment.Later`), with any
hook. As the frames stay in order (`Moment.Later.keeps`) and a run can be replaced by what is left of
it (`Moment.Later.rest_eq`), what is known of the turn that fails is known of the run.

Main statements:

* `turn_raising` — the turn of an instruction that fails;
* `Moment.Fails.traced` — the trace with which the run ends.
-/

namespace BytecodeDebugger

/-- **What goes wrong in an instruction.** -/
inductive Mishap where
  /-- an error of the machine, or one of a host function that has no index -/
  | fault (message : String)
  /-- a failure of a host function -/
  | host (error : HostError)
  /-- too many calls are in progress, the one just entered included -/
  | overflow (entered : FrameId)

/-- What an error passed before it came to the instruction. An overflow leaves no trace. -/
def Mishap.passed? : Mishap → Option (List StackEntry)
  | .fault _ => some []
  | .host error => some error.stack
  | .overflow _ => none

/-- **How a turn goes on** after a mishap in the instruction at `pc`. -/
def Mishap.tail (m : Machine) (current : FrameId) (callers : List FrameId) (pc : Nat) (code : UInt8) :
    Mishap → Attended Turn
  | .fault message => .ask (.raise message) fun (e : RuntimeError) =>
    m.reportFailed (current :: callers) current pc code e
  | .host error =>
    m.failTurn (current :: callers) (.host { error with stack := error.stack ++ [⟨current, pc⟩] })
  | .overflow entered =>
    m.reportDone (current :: callers) current pc code <|
      .ask (.raise "stack overflow") fun (e : RuntimeError) =>
        .done (.finish (.error (.runtime e))
          ({ m with traceback := none }.abandon (entered :: current :: callers)))

/-- **A hook that keeps the trace**: a new error has passed nothing, and of an instruction that failed
with such an error the frame is noted. -/
structure Attended.Tracing {σ : Type} (hook : Attended.Hook σ) : Prop where
  raised : ∀ message s, ((hook (.raise message) s).1 : RuntimeError).stack = []
  noted : ∀ frame pc code (e : RuntimeError) s, e.stack = [] →
    ∃ e' : RuntimeError, (hook (.after frame pc code (some e)) s).1 = some e' ∧
      e'.stack = [⟨frame, pc⟩]

/-- The hook that never interferes, as a hook without a state. -/
def Attended.alone : Attended.Hook Unit := fun call u => (Attended.idle call, u)

theorem Attended.run_alone {α : Type} (t : Attended α) :
    t.run Attended.alone () = t.detach.map fun a => (a, ()) := by
  induction t with
  | done a => rfl
  | stop reason => rfl
  | ask call next ih => exact ih _

theorem Attended.run_alone_of_detach {α : Type} {t : Attended α} {a : α} (h : t.detach = .ok a) :
    t.run Attended.alone () = .ok (a, ()) := by
  rw [Attended.run_alone, h]
  rfl

theorem Attended.tracing_alone : Attended.Tracing Attended.alone where
  raised _ _ := rfl
  noted frame pc code e s he :=
    ⟨{ e with stack := e.stack ++ [⟨frame, pc⟩] }, rfl, by rw [he]; rfl⟩

theorem Engine.tracing_reply : Attended.Tracing Engine.reply where
  raised _ _ := rfl
  noted frame pc code e s he := by
    refine ⟨e.tag ⟨frame, pc⟩, rfl, ?_⟩
    unfold RuntimeError.tag
    rw [if_neg (by rw [he]; exact List.not_mem_nil), he]
    rfl

theorem ExecError.stack_through (e : ExecError) (entries : List StackEntry) :
    (e.through entries).stack = e.stack ++ entries := by
  cases e <;> rfl

namespace Machine

open Attended

/-! ### Where the callers wait -/

/-- **A frame waits at an entry**: this is the call that it ran last, and the results are due. -/
def Awaits (m : Machine) (frame : FrameId) (entry : StackEntry) : Prop :=
  entry.frame = frame ∧ ∃ a i, m.frame? frame = some a ∧ a.pc = entry.pc + 1 ∧
    a.closure.proto.instructions[entry.pc]? = some i ∧ Op.ofCode i.code = .call ∧
    a.pending = some (i.a.toNat, i.c)

section Turns

variable {σ : Type} {hook : Hook σ} {m m₁ : Machine} {ground : SortedMap FrameId Activation}
  {stack : List FrameId} {current : FrameId} {callers : List FrameId} {a : Activation}
  {i : Instruction} {inner : InnerCall} {mishap : Mishap} {own : List StackEntry} {s s' : σ}

/-- **The entries of the callers** are the calls in which they wait. -/
theorem callerEntries_of_chain
    (h : (current :: callers).IsChain fun callee caller => m.Waits caller callee) :
    ∃ waits, m.callerEntries callers = .ok waits ∧ List.Forall₂ m.Awaits callers waits := by
  -- over the callers, each of which waits for the one inside it
  induction callers generalizing current with
  | nil => exact ⟨[], rfl, .nil⟩
  | cons caller callers ih =>
    obtain ⟨hwaits, hchain⟩ := List.isChain_cons_cons.mp h
    obtain ⟨-, a, -, i, ha, -, hpc, hi, hop, hpending, -⟩ := hwaits
    obtain ⟨waits, hentries, hawaits⟩ := ih hchain
    refine ⟨⟨caller, a.pc - 1⟩ :: waits, ?_, .cons ⟨rfl, a, i, ha, ?_, hi, hop, hpending⟩ hawaits⟩
    · simp only [callerEntries, ha, hentries]
      rfl
    · -- the counter of a caller stands behind its call
      exact (Nat.sub_add_cancel hpc).symm

/-! ### Turns that go on -/

variable (hook) in
/-- Parking frames asks, and then goes on as it would without. -/
theorem run_parkAll_done {α : Type} (frames : List FrameId) (result : α) (s : σ) :
    ∃ s', (parkAll frames (.done result)).run hook s = .ok (result, s') := by
  induction frames generalizing s with
  | nil => exact ⟨s, rfl⟩
  | cons frame frames ih => exact ih _

/-- A turn that fails does not go on. -/
theorem run_failTurn_ne {e : ExecError} {stack' : List FrameId} {m' : Machine} :
    (m.failTurn stack e).run hook s ≠ .ok (.goOn stack' m', s') := by
  intro h
  simp only [failTurn, run_ofExcept] at h
  obtain ⟨t, ht, heq⟩ := exists_of_map_eq_ok h
  cases heq
  obtain ⟨p, -, hfinish⟩ := exists_of_map_eq_ok ht
  cases hfinish

/-- A turn that goes on after an instruction that ran goes on as it would without the report. -/
theorem run_reportDone_goOn {pc : Nat} {code : UInt8} {next : Attended Turn}
    {stack' : List FrameId} {m' : Machine}
    (h : (m.reportDone stack current pc code next).run hook s = .ok (.goOn stack' m', s')) :
    ∃ s₁, next.run hook s₁ = .ok (.goOn stack' m', s') := by
  simp only [reportDone, run_ask] at h
  split at h
  · exact ⟨_, h⟩
  · exact absurd h run_failTurn_ne

/-- A turn that goes on after an instruction that failed goes on where it failed. -/
theorem run_reportFailed_goOn {pc : Nat} {code : UInt8} {e : RuntimeError} {stack' : List FrameId}
    {m' : Machine}
    (h : (m.reportFailed stack current pc code e).run hook s = .ok (.goOn stack' m', s')) :
    stack' = stack ∧ m' = m := by
  simp only [reportFailed, run_ask] at h
  split at h
  · cases h
    exact ⟨rfl, rfl⟩
  · exact absurd h run_failTurn_ne

/-- A turn that goes on was not held up. -/
theorem run_gate_goOn {tail : Attended Turn} {decision : Decision} {stack' : List FrameId}
    {m' : Machine}
    (h : (gate m current callers a tail decision).run hook s = .ok (.goOn stack' m', s')) :
    tail.run hook s = .ok (.goOn stack' m', s') := by
  cases decision with
  | proceed => exact h
  | suspend pc =>
    obtain ⟨s₁, hparked⟩ := run_parkAll_done hook callers
      (Turn.finish (.ok .suspended) (m.setFrame current { a with pc })) s
    rw [gate, hparked] at h
    cases h

/-- What follows an instruction that may run keeps the frames in order if it goes on. -/
theorem Tail.goes_on {pc : Nat} {code : UInt8} {tail : Attended Turn}
    (htail : Tail inner m ground (current :: callers) current pc code tail) {stack' : List FrameId}
    {m' : Machine} (hrun : tail.run hook s = .ok (.goOn stack' m', s')) :
    stack' ≠ [] ∧ m'.Runs ground stack' := by
  -- a hook may let a failed instruction pass; the frames are in order then as before
  cases htail with
  | stop reason => cases hrun
  | lost reason m₁ =>
    obtain ⟨s₁, hstop⟩ := run_reportDone_goOn hrun
    cases hstop
  | done m₁ t orderly =>
    obtain ⟨s₁, hdone⟩ := run_reportDone_goOn hrun
    cases hdone
    exact orderly
  | overflow m₁ m₂ message =>
    obtain ⟨s₁, hover⟩ := run_reportDone_goOn hrun
    cases hover
  | fault m₁ message runs =>
    obtain ⟨rfl, rfl⟩ := run_reportFailed_goOn hrun
    exact ⟨by simp, runs⟩
  | foreign m₁ e _ _ runs =>
    obtain ⟨rfl, rfl⟩ := run_reportFailed_goOn hrun
    exact ⟨by simp, runs⟩
  | host m₁ e => exact absurd hrun run_failTurn_ne

/-- **Whatever the hook answers, a turn that goes on keeps the frames in order.** -/
theorem turn_goes_on (hinner : InnerKeeps inner) (h : m.Runs ground stack) (hne : stack ≠ [])
    {stack' : List FrameId} {m' : Machine}
    (hturn : (turn inner m stack).run hook s = .ok (.goOn stack' m', s')) :
    stack' ≠ [] ∧ m'.Runs ground stack' := by
  obtain ⟨current, callers, rfl⟩ := List.exists_cons_of_ne_nil hne
  obtain ⟨a, ha⟩ := h.live current List.mem_cons_self
  rcases turn_cases hinner h ha with ⟨-, htail⟩ | ⟨i, tail, -, htail, heq⟩
  · -- behind its last instruction a frame is left without a question
    exact htail.goes_on hturn
  · rw [heq] at hturn
    exact htail.goes_on (run_gate_goOn hturn)

/-! ### Mishaps -/

/-- **The instruction `i` of `current` fails**, in the machine that is given. -/
inductive Raises (inner : InnerCall) (m : Machine) (current : FrameId) (callers : List FrameId)
    (a : Activation) (i : Instruction) : Mishap → Machine → Prop where
  | fault {m' : Machine} {a' : Activation} {message : String}
    (performed : m.perform { a with pc := a.pc + 1 } i = (m', a', .fault message)) :
    Raises inner m current callers a i (.fault message) (m'.setFrame current a')
  /-- a host function raised an error of the program that has no index; what it passed is dropped -/
  | program {m' m₁ : Machine} {a' : Activation} {body : Host} {base : Nat} {c : Int}
    {message : String} {passed : List StackEntry}
    (performed : m.perform { a with pc := a.pc + 1 } i = (m', a', .host body base c))
    (raised : body.run inner (m'.setFrame current a') =
      .ok (.error (.runtime ⟨message, passed, none⟩), m₁)) :
    Raises inner m current callers a i (.fault message) m₁
  | host {m' m₁ : Machine} {a' : Activation} {body : Host} {base : Nat} {c : Int}
    {error : HostError}
    (performed : m.perform { a with pc := a.pc + 1 } i = (m', a', .host body base c))
    (raised : body.run inner (m'.setFrame current a') = .ok (.error (.host error), m₁)) :
    Raises inner m current callers a i (.host error) m₁
  | overflow {m' : Machine} {a' : Activation} {entered : FrameId}
    (performed : m.perform { a with pc := a.pc + 1 } i = (m', a', .enter entered))
    (deep : maxCallDepth < callers.length + 2) :
    Raises inner m current callers a i (.overflow entered) (m'.setFrame current a')

/-- **The turn of an instruction that fails**, whatever the hook is. -/
theorem turn_raising (ha : m.frame? current = some a)
    (hi : a.closure.proto.instructions[a.pc]? = some i)
    (h : Raises inner m current callers a i mishap m₁) :
    turn inner m (current :: callers) = .ask (.before (siteOf current a i))
      (gate m current callers a (mishap.tail m₁ current callers a.pc i.code)) := by
  -- an instruction failed, a host function made or passed on an error, or the stack is too deep
  cases h with
  | fault performed => exact turn_ask ha hi performed
  | program performed raised | host performed raised =>
    rw [turn_ask ha hi performed]
    simp only [settle, raised, Attended.ofExcept]
    rfl
  | overflow performed deep =>
    rw [turn_ask ha hi performed]
    simp only [settle, enterTurn, List.length_cons]
    rw [if_pos deep]
    rfl

/-- An instruction that enters no function keeps the frames in order. -/
theorem runs_perform {m' : Machine} {a' : Activation} {effect : Effect}
    (hperformed : m.perform { a with pc := a.pc + 1 } i = (m', a', effect))
    (heffect : ∀ frame, effect ≠ .enter frame) (hruns : m.Runs ground (current :: callers))
    (ha : m.frame? current = some a) : (m'.setFrame current a').Runs ground (current :: callers) := by
  rcases perform_cases m { a with pc := a.pc + 1 } i with hs | ⟨closure, args, -, -, -, henter⟩
  · rw [hperformed] at hs
    exact hs.runs hruns ha
  · rw [hperformed] at henter
    cases henter
    exact absurd rfl (heffect _)

/-- **Where an error is raised that leaves a trace, the frames are in order.** -/
theorem Raises.runs (h : Raises inner m current callers a i mishap m₁) (hinner : InnerKeeps inner)
    (hruns : m.Runs ground (current :: callers)) (ha : m.frame? current = some a)
    (hown : mishap.passed? = some own) : m₁.Runs ground (current :: callers) := by
  -- no such instruction enters a function
  cases h with
  | fault performed => exact runs_perform performed (by simp) hruns ha
  | program performed raised | host performed raised =>
    -- what the host function called is over again
    have hbefore := runs_perform performed (by simp) hruns ha
    obtain ⟨hframes, hgrows⟩ := host_run_keeps hinner _ hbefore.bounded raised
    exact hbefore.of_grows hframes hgrows
  | overflow => cases hown

variable (hook) in
/-- Ending a run with an error asks nothing. -/
theorem run_failTurn_of_chain
    (h : (current :: callers).IsChain fun callee caller => m.Waits caller callee) (e : ExecError)
    (s : σ) :
    ∃ waits m₁, (m.failTurn (current :: callers) e).run hook s =
        .ok (.finish (.error (e.through waits)) m₁, s) ∧
      List.Forall₂ m.Awaits callers waits ∧
      m₁.traceback = some (m.renderStack (e.through waits).stack) := by
  obtain ⟨waits, hentries, hawaits⟩ := callerEntries_of_chain h
  refine ⟨waits, { m with traceback := some (m.renderStack (e.through waits).stack) }.abandon
    (current :: callers), ?_, hawaits, ?_⟩
  · simp only [failTurn, run_ofExcept, unwind, List.tail_cons, hentries]
    rfl
  · rw [abandon_traceback]

end Turns

/-! ### Traces -/

/-- **A failure of an instruction**: the frame in front of it and the callers of this frame, and the
machine in which the error is raised. -/
structure Failure where
  frame : FrameId
  callers : List FrameId
  activation : Activation
  instruction : Instruction
  mishap : Mishap
  machine : Machine

namespace Failure

/-- The instruction that fails. -/
def site (x : Failure) : Site := siteOf x.frame x.activation x.instruction

/-- How the turn goes on. -/
def tail (x : Failure) : Attended Turn :=
  x.mishap.tail x.machine x.frame x.callers x.activation.pc x.instruction.code

/-- **The error shows the failure**: it lists what it had passed, the instruction, and the calls in
which the callers wait, in this order and nothing else; and this list was rendered where all these
frames were live. -/
structure Traced (x : Failure) (own : List StackEntry) (error : ExecError) (final : Machine) :
    Prop where
  trace : ∃ waits, error.stack = own ++ ⟨x.frame, x.activation.pc⟩ :: waits ∧
    List.Forall₂ x.machine.Awaits x.callers waits
  live : ∀ f ∈ x.frame :: x.callers, ∃ a, x.machine.frame? f = some a
  rendered : final.traceback = some (x.machine.renderStack error.stack)

variable {σ : Type} {hook : Hook σ} {ground : SortedMap FrameId Activation} {own : List StackEntry}
  {x : Failure}

/-- **A failed turn ends the run with its trace.** -/
theorem run_tail (ht : Tracing hook) (hruns : x.machine.Runs ground (x.frame :: x.callers))
    (hown : x.mishap.passed? = some own) (s : σ) :
    ∃ error final s', x.tail.run hook s = .ok (.finish (.error error) final, s') ∧
      x.Traced own error final := by
  obtain ⟨frame, callers, a, i, mishap, m⟩ := x
  cases mishap with
  | fault message =>
    cases hown
    -- the error is new, so that the instruction comes first in its trace
    obtain ⟨e', hnoted, hstack⟩ :=
      ht.noted frame a.pc i.code _ (hook (.raise message) s).2 (ht.raised message s)
    have htail : (tail ⟨frame, callers, a, i, .fault message, m⟩).run hook s =
        (m.failTurn (frame :: callers) (.runtime e')).run hook
          (hook (.after frame a.pc i.code (some (hook (.raise message) s).1))
            (hook (.raise message) s).2).2 := by
      change (m.reportFailed (frame :: callers) frame a.pc i.code (hook (.raise message) s).1).run
        hook (hook (.raise message) s).2 = _
      simp only [reportFailed, run_ask, hnoted]
    obtain ⟨waits, final, hrun, hawaits, hrendered⟩ := run_failTurn_of_chain hook hruns.chain
      (.runtime e') _
    refine ⟨_, final, _, htail.trans hrun, ⟨waits, ?_, hawaits⟩, hruns.live, hrendered⟩
    rw [ExecError.stack_through]
    exact congrArg (· ++ waits) hstack
  -- an error of the host keeps its own stack in front
  | host error =>
    cases hown
    obtain ⟨waits, final, hrun, hawaits, hrendered⟩ := run_failTurn_of_chain hook hruns.chain
      (.host { error with stack := error.stack ++ [⟨frame, a.pc⟩] }) s
    refine ⟨_, final, s, hrun, ⟨waits, ?_, hawaits⟩, hruns.live, hrendered⟩
    rw [ExecError.stack_through]
    exact List.append_assoc _ _ _
  | overflow entered => cases hown

end Failure

/-! ### Moments of a run -/

/-- **A moment of a run**, between two turns: what is left of the budget, the stack, the machine and
the state of the hook. -/
structure Moment (σ : Type) where
  budget : Nat
  stack : List FrameId
  machine : Machine
  state : σ

namespace Moment

variable {σ : Type} {hook : Hook σ} {p p' : Moment σ} {ground : SortedMap FrameId Activation}
  {x : Failure} {own : List StackEntry}

/-- A turn leads from one moment to the next. -/
inductive Next (hook : Hook σ) : Moment σ → Moment σ → Prop where
  | turn {budget : Nat} {stack stack' : List FrameId} {m m' : Machine} {s s' : σ}
    (goesOn : (turn (fun f args m => (call budget f args m).detach) m stack).run hook s =
      .ok (.goOn stack' m', s')) :
    Next hook ⟨budget + 1, stack, m, s⟩ ⟨budget, stack', m', s'⟩

/-- **Some turns lead from one moment to a later one.** -/
def Later (hook : Hook σ) : Moment σ → Moment σ → Prop := Relation.ReflTransGen (Next hook)

/-- What is left of the run. -/
def rest (hook : Hook σ) (p : Moment σ) : Except Stop ((RunResult × Machine) × σ) :=
  (run p.budget p.stack p.machine).run hook p.state

/-- **The failure comes next**: the hook lets the instruction run, and it fails. -/
structure Fails (hook : Hook σ) (p : Moment σ) (x : Failure) : Prop where
  stack : p.stack = x.frame :: x.callers
  frame : p.machine.frame? x.frame = some x.activation
  instruction : x.activation.closure.proto.instructions[x.activation.pc]? = some x.instruction
  proceeds : (hook (.before x.site) p.state).1 = Decision.proceed
  raises : ∃ budget, p.budget = budget + 1 ∧
    Raises (fun f args m => (call budget f args m).detach) p.machine x.frame x.callers x.activation
      x.instruction x.mishap x.machine

/-- A run is what is left of it at a later moment. -/
theorem Later.rest_eq (h : Later hook p p') : p.rest hook = p'.rest hook := by
  -- on the number of turns; the last of them spends one of the budget
  induction h with
  | refl => rfl
  | tail _ hnext ih =>
    rw [ih]
    cases hnext with
    | turn goesOn =>
      unfold rest
      dsimp only
      rw [run_succ, run_bind, goesOn]
      rfl

/-- What every answer of the hook keeps holds later. -/
theorem Later.state {P : σ → Prop} (keep : ∀ call s, P s → P (hook call s).2)
    (h : Later hook p p') (hp : P p.state) : P p'.state := by
  induction h with
  | refl => exact hp
  | tail _ hnext ih =>
    cases hnext with
    | turn goesOn => exact run_preserves keep _ ih goesOn

/-- **The frames stay in order.** -/
theorem Later.keeps (h : Later hook p p') (hruns : p.machine.Runs ground p.stack)
    (hne : p.stack ≠ []) : p'.machine.Runs ground p'.stack ∧ p'.stack ≠ [] := by
  induction h with
  | refl => exact ⟨hruns, hne⟩
  | tail _ hnext ih =>
    cases hnext with
    | @turn budget _ _ _ _ _ _ goesOn =>
      obtain ⟨hne', hruns'⟩ := turn_goes_on (innerKeeps_call budget) ih.1 ih.2 goesOn
      exact ⟨hruns', hne'⟩

/-- The rest of a run that fails next is the tail of its turn. -/
theorem Fails.rest_eq (h : p.Fails hook x) {error : ExecError} {final : Machine} {s' : σ}
    (htail : x.tail.run hook (hook (.before x.site) p.state).2 = .ok (.finish (.error error) final, s')) :
    p.rest hook = .ok ((.error error, final), s') := by
  obtain ⟨budget, hbudget, hraises⟩ := h.raises
  have hturn := turn_raising h.frame h.instruction hraises
  -- the turn that fails is the last one, so that it is the whole rest of the run
  have hrun : (turn (fun f args m => (call budget f args m).detach) p.machine
      (x.frame :: x.callers)).run hook p.state = .ok (.finish (.error error) final, s') := by
    rw [hturn]
    change (gate p.machine x.frame x.callers x.activation x.tail
      (hook (.before x.site) p.state).1).run hook (hook (.before x.site) p.state).2 = _
    rw [h.proceeds]
    exact htail
  unfold rest
  rw [hbudget, h.stack, run_succ, run_bind, hrun]
  rfl

/-- **A failure that comes next ends the run with its trace.** -/
theorem Fails.traced (h : p.Fails hook x) (ht : Tracing hook)
    (hruns : p.machine.Runs ground p.stack) (hown : x.mishap.passed? = some own) :
    ∃ error final s', p.rest hook = .ok ((.error error, final), s') ∧ x.Traced own error final := by
  obtain ⟨budget, -, hraises⟩ := h.raises
  rw [h.stack] at hruns
  have hraised := hraises.runs (innerKeeps_call budget) hruns h.frame hown
  obtain ⟨error, final, s', htail, htraced⟩ :=
    Failure.run_tail ht hraised hown (hook (.before x.site) p.state).2
  exact ⟨error, final, s', h.rest_eq htail, htraced⟩

/-- **The moments of a call** of a function of the language. -/
def Called (hook : Hook σ) (fuel : Nat) (f : Value) (args : List Value) (m : Machine) (s : σ)
    (p : Moment σ) : Prop :=
  ∃ budget closure, fuel = budget + 1 ∧ m.callable? f = some (.closure closure) ∧ closure.Fits ∧
    Later hook ⟨budget, [m.nextFrame], (m.enter closure args).2, s⟩ p

section Calls

variable {fuel : Nat} {f : Value} {args : List Value} {m : Machine} {s : σ}

theorem Called.rest_eq (h : Called hook fuel f args m s p) :
    (call fuel f args m).run hook s = p.rest hook := by
  obtain ⟨budget, closure, rfl, hcallee, hfits, hlater⟩ := h
  rw [call_closure hcallee hfits]
  exact hlater.rest_eq

theorem Called.keeps (h : Called hook fuel f args m s p) (hb : m.Bounded) :
    p.machine.Runs m.frames p.stack := by
  obtain ⟨budget, closure, rfl, -, -, hlater⟩ := h
  exact (hlater.keeps (Runs.entered hb closure args) (by simp)).1

theorem Called.stack_ne_nil (h : Called hook fuel f args m s p) (hb : m.Bounded) :
    p.stack ≠ [] := by
  obtain ⟨budget, closure, rfl, -, -, hlater⟩ := h
  exact (hlater.keeps (Runs.entered hb closure args) (by simp)).2

end Calls

end Moment

/-! ### A program that fails -/

/-- A function that adds nil to nil on line 7, in front of its first instruction. -/
def adding : Activation where
  closure := ⟨{ instructions := #[⟨12, 0, 0, 0⟩], lines := #[7] }, [], "main"⟩
  registers := #[]
  pc := 0
  pending := none

/-- A machine with two functions: the first calls its argument on line 1 and returns on line 2, the
second adds nil to nil. -/
def stumble : Machine where
  heap := ⟨#[.empty]⟩
  cells := #[]
  functions := #[
    .closure ⟨{ numParams := 1, instructions := #[⟨28, 0, 1, 1⟩, ⟨30, 0, 1, 0⟩], lines := #[1, 2] },
      [], "main"⟩,
    .closure adding.closure]
  frames := .empty
  nextFrame := 0
  output := #[]
  traceback := none

/-- The addition fails, wherever it is made. -/
theorem fails_adding {σ : Type} {hook : Attended.Hook σ} {p : Moment σ} {budget : Nat}
    (hbudget : p.budget = budget + 1) (hstack : p.stack = [1, 0])
    (hframe : p.machine.frame? 1 = some adding)
    (hproceeds : (hook (.before (siteOf 1 adding ⟨12, 0, 0, 0⟩)) p.state).1 = Decision.proceed) :
    p.Fails hook ⟨1, [0], adding, ⟨12, 0, 0, 0⟩, .fault (arithmeticFault .nil),
      p.machine.setFrame 1 { adding with pc := 1 }⟩ :=
  ⟨hstack, hframe, rfl, hproceeds, budget, hbudget, .fault rfl⟩

end Machine

end BytecodeDebugger
