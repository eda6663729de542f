import BytecodeDebugger.Proofs.Machine.Failing
import BytecodeDebugger.Proofs.Machine.Stack

/-!
# One rule for turns

What a turn does is a tree whose shape is always the same: the hook may hold the frame up; otherwise
the instruction is carried out, a host function may work, the hook is told, and the frame goes on,
enters a function, is left, or fails. `Branches` lists what has to be shown along this tree so that
every branch ends as it should, and `Branches.turn` goes through the tree once and for all.

The rule is about every reply that is `allowed`. So it serves statements about all hooks and those
about some.
-/

namespace BytecodeDebugger

namespace Activation

/-- The arguments of a call: the registers behind the one that holds the function. -/
def arguments (a : Activation) (i : Instruction) : List Value :=
  (List.range (i.b - 1).toNat).map fun n => a.register (i.a.toNat + 1 + n)

/-- **The frame returns these values next**: none behind its last instruction, and registers from A on
at a return. -/
def Returns (a : Activation) (values : List Value) : Prop :=
  (a.closure.proto.instructions[a.pc]? = none ∧ values = []) ∨
    ∃ i, a.closure.proto.instructions[a.pc]? = some i ∧ Op.ofCode i.code = .return ∧
      values = (List.range (i.b - 1).toNat).map fun n => a.register (i.a.toNat + n)

end Activation

namespace Machine

open Attended

section Calls

variable {m : Machine} {a : Activation} {i : Instruction}

/-- A call of a function of the language. -/
theorem perform_call_closure {closure : Closure} (hop : Op.ofCode i.code = .call)
    (hcallee : m.callable? (a.register i.a.toNat) = some (.closure closure)) (hfits : closure.Fits) :
    m.perform a i = ((m.enter closure (a.arguments i)).2,
      { a with pending := some (i.a.toNat, i.c) }, .enter m.nextFrame) := by
  simp only [perform, hop, performCall, hcallee, if_pos hfits]
  rfl

/-- Only a return leaves its frame, and it returns what stands in the registers. -/
theorem perform_leave_eq {m' : Machine} {a' : Activation} {values : List Value}
    (h : m.perform a i = (m', a', .leave values)) :
    Op.ofCode i.code = .return ∧
      values = (List.range (i.b - 1).toNat).map fun n => a.register (i.a.toNat + n) := by
  have hop : Op.ofCode i.code = .return := perform_leave (m := m) (a := a) (by rw [h])
  simp only [perform, hop] at h
  cases h
  exact ⟨hop, rfl⟩

end Calls

variable {inner : InnerCall} {m : Machine} {current : FrameId} {callers : List FrameId}
  {a : Activation} {allowed : (call : HookCall) → call.Reply → Prop} {expected : Stop → Prop}
  {P : Turn → Prop} {At : Machine → Prop}

/-- **What has to be shown of the branches of a turn**, in which the frame `current` goes on. `At` is
what is known of the machine as long as no frame was entered or left. -/
structure Branches (inner : InnerCall) (m : Machine) (current : FrameId) (callers : List FrameId)
    (a : Activation) (allowed : (call : HookCall) → call.Reply → Prop) (expected : Stop → Prop)
    (P : Turn → Prop) (At : Machine → Prop) : Prop where
  /-- at first -/
  start : At m
  /-- the frame is held up -/
  held : ∀ pc, P (.finish (.ok .suspended) (m.setFrame current { a with pc }))
  /-- an instruction stayed in its frame -/
  stored : ∀ m' a' effect, Stays m { a with pc := a.pc + 1 } (m', a', effect) →
    At (m'.setFrame current a')
  /-- a host function worked, -/
  worked : ∀ (body : Host) m₁ result m₂, At m₁ → body.run inner m₁ = .ok (result, m₂) → At m₂
  stopped : ∀ (body : Host) m₁ reason, At m₁ → body.run inner m₁ = .error reason → expected reason
  /-- and its results go to the frame -/
  placed : ∀ m₁ b base c values, At m₁ → m₁.frame? current = some b →
    At (m₁.setFrame current (b.place base c values))
  lost : ∀ m₁, At m₁ → m₁.frame? current = none → expected (.lostFrame current)
  /-- the frame goes on -/
  goesOn : ∀ m₁, At m₁ → P (.goOn (current :: callers) m₁)
  /-- there is no room for a call -/
  overflows : expected .overflow
  /-- the run fails -/
  fails : ∀ m₁ e, At m₁ → (m₁.failTurn (current :: callers) e).Yields allowed expected P
  /-- the frame is left -/
  leaves : ∀ m₁ values, At m₁ → a.Returns values →
    (m₁.leaveTurn current callers values).Yields allowed expected P
  /-- a function is entered -/
  enters : ∀ i closure, a.closure.proto.instructions[a.pc]? = some i → Op.ofCode i.code = .call →
    m.callable? (a.register i.a.toNat) = some (.closure closure) →
    let m₁ := (m.enter closure (a.arguments i)).2.setFrame current
      { a with pc := a.pc + 1, pending := some (i.a.toNat, i.c) }
    (m₁.reportDone (current :: callers) current a.pc i.code
      (m₁.enterTurn (current :: callers) m.nextFrame)).Yields allowed expected P

namespace Branches

variable (rule : Branches inner m current callers a allowed expected P At) {m₁ : Machine} {pc : Nat}
  {code : UInt8}

include rule

theorem reportDone (h : At m₁) {next : Attended Turn} (hnext : next.Yields allowed expected P) :
    (m₁.reportDone (current :: callers) current pc code next).Yields allowed expected P := by
  intro reply _
  cases reply with
  | none => exact hnext
  | some e => exact rule.fails m₁ _ h

theorem reportFailed (h : At m₁) (e : RuntimeError) :
    (m₁.reportFailed (current :: callers) current pc code e).Yields allowed expected P := by
  intro reply _
  cases reply with
  | none => exact rule.goesOn m₁ h
  | some e => exact rule.fails m₁ _ h

theorem host (h : At m₁) (body : Host) (base : Nat) (c : Int) :
    (settle inner m₁ current callers pc code (.host body base c)).Yields allowed expected P := by
  have hworked : (Attended.ofExcept (body.run inner m₁)).Yields allowed expected fun p => At p.2 :=
    .ofExcept (fun p hp => rule.worked body m₁ p.1 p.2 h hp)
      fun reason hreason => rule.stopped body m₁ reason h hreason
  -- the body works by itself, and only what it hands back is reported
  refine Yields.bind hworked fun ⟨result, m₂⟩ h₂ => ?_
  refine Yields.bind (restamp_yields result) fun stamped _ => ?_
  cases stamped with
  | error e =>
    cases e with
    | runtime e => exact rule.reportFailed h₂ e
    | host e => exact rule.fails m₂ _ h₂
  | ok values =>
    dsimp only
    split
    · next hlost => exact rule.lost m₂ h₂ hlost
    · next b hb =>
      have hplaced := rule.placed m₂ b base c values h₂ hb
      exact rule.reportDone hplaced (rule.goesOn _ hplaced)

theorem settle {i : Instruction} (hi : a.closure.proto.instructions[a.pc]? = some i) {m' : Machine}
    {a' : Activation} {effect : Effect}
    (hp : m.perform { a with pc := a.pc + 1 } i = (m', a', effect)) :
    (settle inner (m'.setFrame current a') current callers a.pc i.code effect).Yields
      allowed expected P := by
  -- an instruction enters a function of the program, or keeps the frame that it runs in
  rcases perform_cases m { a with pc := a.pc + 1 } i with hstays |
    ⟨closure, args, hop, hcallee, hfits, -⟩
  · rw [hp] at hstays
    have hstored := rule.stored m' a' effect hstays
    cases effect with
    | next => exact rule.reportDone hstored (rule.goesOn _ hstored)
    | enter frame => exact hstays.effect.elim
    | leave values =>
      obtain ⟨hop, hvalues⟩ := perform_leave_eq hp
      exact rule.reportDone hstored (rule.leaves _ values hstored (.inr ⟨i, hi, hop, hvalues⟩))
    | fault message => exact fun e _ => rule.reportFailed hstored e
    | overflow => exact rule.overflows
    | host body base c => exact rule.host hstored body base c
  · rw [perform_call_closure hop hcallee hfits] at hp
    cases hp
    exact rule.enters i closure hi hop hcallee

/-- **Every branch of the turn ends as it should.** -/
theorem turn (ha : m.frame? current = some a) :
    (turn inner m (current :: callers)).Yields allowed expected P := by
  cases hi : a.closure.proto.instructions[a.pc]? with
  | none =>
    simp only [Machine.turn, ha, hi]
    exact rule.reportDone rule.start (rule.leaves m [] rule.start (.inl ⟨hi, rfl⟩))
  | some i =>
    rcases hp : m.perform { a with pc := a.pc + 1 } i with ⟨m', a', effect⟩
    rw [turn_ask ha hi hp]
    intro decision _
    cases decision with
    | suspend pc =>
      -- the callers are parked, whatever the replies are
      have hparked : ∀ frames : List FrameId,
          (parkAll frames (.done (.finish (.ok .suspended)
            (m.setFrame current { a with pc })))).Yields allowed expected P := by
        intro frames
        induction frames with
        | nil => exact rule.held pc
        | cons frame frames ih => exact fun _ _ => ih
      exact hparked callers
    | proceed => exact rule.settle hi hp

end Branches

end Machine

end BytecodeDebugger
