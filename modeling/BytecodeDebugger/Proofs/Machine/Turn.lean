import BytecodeDebugger.Proofs.Machine.Budget
import BytecodeDebugger.Proofs.Machine.Frames

/-!
# One turn, seen from every hook

A turn asks the hook whether the next instruction may run, and what follows then has few shapes. They
are listed once, in `Machine.Tail`, together with what each of them does to the frames; everything
that is said about a turn, with or without a debugger, is read off this list.

Main statements:

* `turn_cases` — a turn is the tail of a frame that is over, or the question about the next
  instruction and a tail behind it;
* `turn_keeps` — a turn without a debugger keeps the frames of a run in order, or ends the run with
  the frames of the ground left;
* `run_restores`, `call_restores` — a run without a debugger that ends, whether it completed or
  failed, leaves exactly the frames that were there before it.
-/

namespace BytecodeDebugger

/-! ### What a turn leaves behind -/

/-- The machine after a turn. -/
def Turn.machine : Turn → Machine
  | .goOn _ m => m
  | .finish _ m => m

/-- The error with which a turn ends its run. -/
def Turn.error? : Turn → Option ExecError
  | .finish (.error e) _ => some e
  | _ => none

/-- **The frames are in order after a turn**: those of the run that goes on, or, when the run is over,
those of the ground alone. -/
def Turn.Orderly (ground : SortedMap FrameId Activation) : Turn → Prop
  | .goOn stack m => stack ≠ [] ∧ m.Runs ground stack
  | .finish result m => result ≠ .ok .suspended ∧ m.frames = ground ∧ m.Bounded

namespace Machine

/-- **What a turn of `current` leaves alone**: no frame but `current` moves. -/
structure Moves (m : Machine) (current : FrameId) (m' : Machine) : Prop where
  grows : m.Grows m'
  others : ∀ f a', f ≠ current → m'.frame? f = some a' →
    (∃ a, m.frame? f = some a ∧ a'.closure = a.closure ∧ a'.pc = a.pc) ∨ m.nextFrame ≤ f

/-- A call made by a host function leaves the frames as they were. -/
def InnerKeeps (inner : InnerCall) : Prop :=
  ∀ f args m r m', m.Bounded → inner f args m = .ok (r, m') → m'.frames = m.frames ∧ m.Grows m'

theorem Bounded.of_frames {m m' : Machine} (h : m.Bounded) (hf : m'.frames = m.frames)
    (hg : m.Grows m') : m'.Bounded := by
  intro f a ha
  have ha' : m.frame? f = some a := by
    rw [← ha]
    simp only [frame?, hf]
  exact Nat.lt_of_lt_of_le (h f a ha') hg.nextFrame

/-- A host function leaves the frames as they were, if the calls it makes do. -/
theorem host_run_keeps {inner : InnerCall} (hinner : InnerKeeps inner) (body : Host) {m m' : Machine}
    {r : Except ExecError (List Value)} (hb : m.Bounded) (h : body.run inner m = .ok (r, m')) :
    m'.frames = m.frames ∧ m.Grows m' := by
  -- over what the host function does: only its calls run frames, and they leave none behind
  induction body generalizing m with
  | result values =>
    cases h
    exact ⟨rfl, .refl _⟩
  | raise e =>
    cases h
    exact ⟨rfl, .refl _⟩
  | print line next ih =>
    have hstep : m.Grows { m with output := m.output.push line } := .of_eq rfl rfl
    obtain ⟨hf, hg⟩ := ih (m := { m with output := m.output.push line }) hb h
    exact ⟨hf, hstep.trans hg⟩
  | setGlobal name v next ih =>
    have hstep : m.Grows (m.setGlobal name v) := .of_eq rfl rfl
    obtain ⟨hf, hg⟩ := ih (m := m.setGlobal name v) hb h
    exact ⟨hf, hstep.trans hg⟩
  | tables next ih => exact ih _ hb h
  | setTables heap next ih =>
    have hstep : m.Grows { m with heap } := .of_eq rfl rfl
    obtain ⟨hf, hg⟩ := ih (m := { m with heap }) hb h
    exact ⟨hf, hstep.trans hg⟩
  | load chunk file next ih =>
    have hstep : m.Grows (m.load chunk file).2 := .mint m _
    obtain ⟨hf, hg⟩ := ih _ (m := (m.load chunk file).2) hb h
    exact ⟨hf, hstep.trans hg⟩
  | call f args next ih =>
    simp only [Host.run] at h
    split at h
    · cases h
    · next outcome m₁ hcall =>
      -- what the call left is what the continuation starts from
      obtain ⟨hf₁, hg₁⟩ := hinner f args m outcome m₁ hb hcall
      obtain ⟨hf, hg⟩ := ih _ (hb.of_frames hf₁ hg₁) h
      exact ⟨hf.trans hf₁, hg₁.trans hg⟩

/-! ### The tails of a turn -/

/-- The instruction in front of which a frame stands, as the hook sees it. -/
def siteOf (current : FrameId) (a : Activation) (i : Instruction) : Site :=
  { frame := current, file := a.closure.file, nextPc := a.pc + 1,
    line := a.closure.proto.lineAt a.pc, opcode := i.code, coroutineResuming := false }

/-- **How a turn goes on once its instruction may run.** No question about an instruction that is
about to run is among what follows. -/
inductive Tail (inner : InnerCall) (m : Machine) (ground : SortedMap FrameId Activation) (stack : List FrameId)
    (current : FrameId) (pc : Nat) (code : UInt8) : Attended Turn → Prop where
  | stop (reason : Stop) : Tail inner m ground stack current pc code (.stop reason)
  /-- the instruction ran, and then the run stops without a result -/
  | lost (reason : Stop) (m₁ : Machine) :
    Tail inner m ground stack current pc code
      (m₁.reportDone stack current pc code (.stop reason))
  /-- the instruction ran; a return takes its frame with it -/
  | done (m₁ : Machine) (t : Turn) (orderly : t.Orderly ground) (moves : m.Moves current t.machine)
    (success : t.error? = none)
    (gone : code = Op.returnCode → t.machine.frame? current = none) :
    Tail inner m ground stack current pc code (m₁.reportDone stack current pc code (.done t))
  /-- a call went too deep -/
  | overflow (m₁ m₂ : Machine) (message : String) (frames : m₂.frames = ground)
    (grows : m.Grows m₂) (bounded : m₂.Bounded) :
    Tail inner m ground stack current pc code
      (m₁.reportDone stack current pc code (.ask (.raise message) fun (e : RuntimeError) =>
        .done (.finish (.error (.runtime e)) m₂)))
  /-- the instruction failed -/
  | fault (m₁ : Machine) (message : String) (runs : m₁.Runs ground stack) (grows : m.Grows m₁) :
    Tail inner m ground stack current pc code
      (.ask (.raise message) fun (e : RuntimeError) => m₁.reportFailed stack current pc code e)
  /-- a host function raised an error of the program that is indexed already -/
  | foreign (m₁ : Machine) (e : RuntimeError) (indexed : e.index ≠ none)
    (raised : ∃ body m₂, m.Hosts body ∧ m.Grows m₂ ∧ m₂.Bounded ∧
      body.run inner m₂ = .ok (.error (.runtime e), m₁))
    (runs : m₁.Runs ground stack) (grows : m.Grows m₁) :
    Tail inner m ground stack current pc code (m₁.reportFailed stack current pc code e)
  /-- a host function failed -/
  | host (m₁ : Machine) (e : HostError) (runs : m₁.Runs ground stack) (grows : m.Grows m₁) :
    Tail inner m ground stack current pc code (m₁.failTurn stack (.host e))

section Tails

variable {m m₁ : Machine} {ground : SortedMap FrameId Activation} {current : FrameId}
  {callers : List FrameId} {a : Activation} {inner : InnerCall}

/-- Storing what is there changes nothing. -/
theorem setFrame_self {f : FrameId} (h : m.frame? f = some a) : m.setFrame f a = m := by
  have hframes : m.frames.insert f a = m.frames := by
    refine SortedMap.ext_get? fun g => ?_
    rw [SortedMap.get?_insert]
    split
    · next hg => exact hg ▸ h.symm
    · rfl
  simp only [setFrame, hframes]

theorem Moves.of_update {a' : Activation} (hg : m.Grows m₁)
    (hframes : ∀ f, m₁.frame? f = if f = current then some a' else m.frame? f) :
    m.Moves current m₁ := by
  refine ⟨hg, fun f b hf hb => .inl ⟨b, ?_, rfl, rfl⟩⟩
  rw [hframes, if_neg hf] at hb
  exact hb

theorem Runs.bounded_of_ground {stack : List FrameId} (h : m.Runs ground stack)
    (hf : m₁.frames = ground) (hg : m.Grows m₁) : m₁.Bounded := by
  intro f b hb
  have hground : ground.get? f = some b := by rw [← hf]; exact hb
  -- a frame that is left belongs to the ground, and was there before the run
  by_cases hs : f ∈ stack
  · rw [h.apart f hs] at hground
    cases hground
  · rw [← h.rest f hs] at hground
    exact Nat.lt_of_lt_of_le (h.bounded f b hground) hg.nextFrame

/-- The tail of a frame that is left. -/
theorem leaveTurn_tail (h : m.Runs ground (current :: callers)) (values : List Value) (pc : Nat)
    (code : UInt8) (m₀ : Machine) (hm₀ : m₀.Moves current m) :
    Tail inner m₀ ground (current :: callers) current pc code
      (m.reportDone (current :: callers) current pc code
        (m.leaveTurn current callers values)) := by
  have hgrows : m.Grows (m.dropFrame current) := .of_eq rfl rfl
  cases callers with
  | nil =>
    -- the last frame: the run is over
    have hframes := h.last
    refine .done m _ ⟨by simp, hframes, h.bounded_of_ground hframes hgrows⟩ ?_ rfl fun _ => ?_
    · refine ⟨hm₀.grows.trans hgrows, fun f b hf hb => hm₀.others f b hf ?_⟩
      change (m.dropFrame current).frame? f = some b at hb
      rw [frame?_dropFrame, if_neg hf] at hb
      exact hb
    · change (m.dropFrame current).frame? current = none
      rw [frame?_dropFrame, if_pos rfl]
  | cons caller callers =>
    -- the caller is live and waits, unless the machine is broken
    unfold leaveTurn
    dsimp only
    split
    · exact .lost _ m
    · next b hb =>
      have hne : current ≠ caller := by
        intro hc
        rw [hc, frame?_dropFrame, if_pos rfl] at hb
        cases hb
      refine .done m _ ⟨by simp, h.pop hb values⟩ ?_ rfl fun _ => ?_
      · -- the caller gets the results into its registers and does not move
        refine ⟨hm₀.grows.trans (.of_eq rfl rfl), fun f b' hf hb' => ?_⟩
        change ((m.dropFrame current).setFrame caller (b.deliver values)).frame? f = some b' at hb'
        rw [frame?_setFrame, frame?_dropFrame, if_neg hf] at hb'
        by_cases hcaller : f = caller
        · rw [if_pos hcaller] at hb'
          cases hb'
          have hold : m.frame? f = some b := by
            rw [hcaller, ← hb, frame?_dropFrame, if_neg (Ne.symm hne)]
          obtain ⟨hc, hpc⟩ := deliver_frame b values
          rcases hm₀.others f b hf hold with ⟨b₀, h₀, hc₀, hpc₀⟩ | hnew
          · exact .inl ⟨b₀, h₀, hc.trans hc₀, hpc.trans hpc₀⟩
          · exact .inr hnew
        · rw [if_neg hcaller] at hb'
          exact hm₀.others f b' hf hb'
      · change ((m.dropFrame current).setFrame caller (b.deliver values)).frame? current = none
        rw [frame?_setFrame, if_neg hne, frame?_dropFrame, if_pos rfl]

/-- The tail of a host call. -/
theorem host_tail (hinner : InnerKeeps inner) (h : m₁.Runs ground (current :: callers))
    (hm : m.Moves current m₁) (ha : m₁.frame? current = some a) (pc : Nat) (code : UInt8)
    (hcode : code ≠ Op.returnCode) {body : Host} (hbody : m.Hosts body) (base : Nat) (c : Int) :
    Tail inner m ground (current :: callers) current pc code
      (settle inner m₁ current callers pc code (.host body base c)) := by
  cases hrun : body.run inner m₁ with
  | error reason =>
    have hsettle : settle inner m₁ current callers pc code (.host body base c) = .stop reason := by
      simp only [settle, hrun, Attended.ofExcept]
      rfl
    rw [hsettle]
    exact .stop reason
  | ok p =>
    obtain ⟨result, m₂⟩ := p
    obtain ⟨hframes, hgrows⟩ := host_run_keeps hinner body h.bounded hrun
    -- whatever the host function called, the frames are as before
    have hframe : ∀ f, m₂.frame? f = m₁.frame? f := fun f => by simp only [frame?, hframes]
    have ha₂ : m₂.frame? current = some a := (hframe current).trans ha
    have hruns : m₂.Runs ground (current :: callers) := by
      refine h.update ha (fun f => ?_) rfl hgrows
      rw [hframe f]
      split
      · next hf => rw [hf, ha]
      · rfl
    have hgrows₂ : m.Grows m₂ := hm.grows.trans hgrows
    simp only [settle, hrun, Attended.ofExcept, Attended.bind_eq, Attended.bind]
    cases result with
    | error e =>
      cases e with
      | host e => exact .host m₂ { e with stack := e.stack ++ [⟨current, pc⟩] } hruns hgrows₂
      | runtime e =>
        -- an error without an index is raised anew, one with an index is passed on
        obtain ⟨message, stack, index⟩ := e
        cases index with
        | none => exact .fault m₂ message hruns hgrows₂
        | some index =>
          exact .foreign m₂ ⟨message, stack, some index⟩ (by simp)
            ⟨body, m₁, hbody, hm.grows, h.bounded, hrun⟩ hruns hgrows₂
    | ok values =>
      simp only [restamp, Attended.bind, ha₂]
      have hset := frame?_setFrame m₂ current
      refine .done _ (.goOn _ (m₂.setFrame current (a.place base c values)))
        ⟨by simp, hruns.update ha₂ (hset · _) (place_frame a base c values).1 (.of_eq rfl rfl)⟩
        ?_ rfl fun hc => absurd hc hcode
      refine ⟨hgrows₂.trans (.of_eq rfl rfl), fun f b hf hb => hm.others f b hf ?_⟩
      change (m₂.setFrame current (a.place base c values)).frame? f = some b at hb
      rw [hset, if_neg hf, hframe] at hb
      exact hb

/-- An instruction that stays in its frame changes no other, -/
theorem Stays.frame?_setFrame {m' : Machine} {a' : Activation} {effect : Effect} {pc : Nat}
    (h : Stays m { a with pc } (m', a', effect)) (f : FrameId) :
    (m'.setFrame current a').frame? f = if f = current then some a' else m.frame? f := by
  have hf : m'.frame? f = m.frame? f := congrArg (·.get? f) h.frames
  rw [Machine.frame?_setFrame, hf]

/-- and leaves the stack in order. -/
theorem Stays.runs {m' : Machine} {a' : Activation} {effect : Effect} {pc : Nat}
    (h : Stays m { a with pc } (m', a', effect)) (hruns : m.Runs ground (current :: callers))
    (ha : m.frame? current = some a) : (m'.setFrame current a').Runs ground (current :: callers) :=
  hruns.update ha h.frame?_setFrame h.closure (h.grows.trans (.of_eq rfl rfl))

/-- The tail of an instruction that stays in its frame. -/
theorem stays_tail (hinner : InnerKeeps inner) (h : m.Runs ground (current :: callers))
    (ha : m.frame? current = some a) {pc : Nat} {code : UInt8} {m' : Machine} {a' : Activation}
    {effect : Effect} (hstays : Stays m { a with pc := pc + 1 } (m', a', effect))
    (hcode : (∀ vs, effect ≠ .leave vs) → code ≠ Op.returnCode) :
    Tail inner m ground (current :: callers) current pc code
      (settle inner (m'.setFrame current a') current callers pc code effect) := by
  have hgrows : m.Grows (m'.setFrame current a') := hstays.grows.trans (.of_eq rfl rfl)
  have hframes : ∀ f, (m'.setFrame current a').frame? f =
      if f = current then some a' else m.frame? f := hstays.frame?_setFrame
  have hruns := hstays.runs h ha
  have hmoves : m.Moves current (m'.setFrame current a') := .of_update hgrows hframes
  -- entering a frame is dealt with elsewhere, since it is the one effect that changes the frames
  cases effect with
  | next =>
    exact .done _ (.goOn _ _) ⟨by simp, hruns⟩ hmoves rfl fun hc => absurd hc (hcode (by simp))
  | enter frame => exact hstays.effect.elim
  | leave values => exact leaveTurn_tail hruns values _ _ _ hmoves
  | fault message => exact .fault _ message hruns hgrows
  | overflow => exact .stop .overflow
  | host body base c =>
    have ha' : (m'.setFrame current a').frame? current = some a' := by
      rw [hframes, if_pos rfl]
    exact host_tail hinner hruns hmoves ha' _ _ (hcode (by simp)) hstays.effect base c

/-- The tail of a call that enters a function. -/
theorem enter_tail (h : m.Runs ground (current :: callers)) (ha : m.frame? current = some a)
    {i : Instruction} (hi : a.closure.proto.instructions[a.pc]? = some i)
    (hop : Op.ofCode i.code = .call) {closure : Closure}
    (hcall : m.callable? (a.register i.a.toNat) = some (.closure closure)) (args : List Value)
    (hcode : i.code ≠ Op.returnCode) :
    Tail inner m ground (current :: callers) current a.pc i.code
      (settle inner ((m.enter closure args).2.setFrame current
        { a with pc := a.pc + 1, pending := some (i.a.toNat, i.c) }) current callers a.pc i.code
          (.enter m.nextFrame)) := by
  have hruns := h.push args ha hi hop hcall
  have hgrows : m.Grows ((m.enter closure args).2.setFrame current
      { a with pc := a.pc + 1, pending := some (i.a.toNat, i.c) }) :=
    (Grows.enter m closure args).trans (.of_eq rfl rfl)
  unfold settle enterTurn
  dsimp only
  split
  · -- the stack is too deep, and all of it is abandoned
    have hframes := hruns.abandoned none
    have hrest := abandon_rest { (m.enter closure args).2.setFrame current
      { a with pc := a.pc + 1, pending := some (i.a.toNat, i.c) } with traceback := none }
      (m.nextFrame :: current :: callers)
    have hgrows' := hgrows.trans (.of_eq hrest.1 hrest.2)
    exact .overflow _ _ _ hframes hgrows' (h.bounded_of_ground hframes hgrows')
  · refine .done _ (.goOn _ _) ⟨by simp, hruns⟩ ⟨hgrows, fun f b hf hb => ?_⟩ rfl
      fun hc => absurd hc hcode
    -- apart from the caller, which waits now, there is only the frame that was made
    obtain ⟨x, -, -, hx⟩ := frame?_enter m closure args
    change ((m.enter closure args).2.setFrame current _).frame? f = some b at hb
    rw [frame?_setFrame, if_neg hf, hx] at hb
    split at hb
    · next hnew => exact .inr (Nat.le_of_eq hnew.symm)
    · exact .inl ⟨b, hb, rfl, rfl⟩

/-- **The tail of every instruction.** -/
theorem settle_tail (hinner : InnerKeeps inner) (h : m.Runs ground (current :: callers))
    (ha : m.frame? current = some a) {i : Instruction}
    (hi : a.closure.proto.instructions[a.pc]? = some i) {m' : Machine} {a' : Activation}
    {effect : Effect} (hp : m.perform { a with pc := a.pc + 1 } i = (m', a', effect)) :
    Tail inner m ground (current :: callers) current a.pc i.code
      (settle inner (m'.setFrame current a') current callers a.pc i.code effect) := by
  -- only a return leaves its frame
  have hcode : (∀ vs, effect ≠ .leave vs) → i.code ≠ Op.returnCode := by
    intro heff
    exact code_ne_return (m := m) (a := { a with pc := a.pc + 1 }) (by rw [hp]; exact heff)
  rcases perform_cases m { a with pc := a.pc + 1 } i with hstays |
    ⟨closure, args, hop, hcall, -, henter⟩
  · rw [hp] at hstays
    exact stays_tail hinner h ha hstays hcode
  · rw [hp] at henter
    cases henter
    exact enter_tail h ha hi hop hcall args (hcode (by simp))

end Tails

/-! ### Turns -/

section Turns

variable {m m' : Machine} {ground : SortedMap FrameId Activation} {stack : List FrameId}
  {current : FrameId} {callers : List FrameId} {a : Activation} {inner : InnerCall}

/-- What follows the hook's decision about an instruction. -/
def gate (m : Machine) (current : FrameId) (callers : List FrameId) (a : Activation)
    (tail : Attended Turn) : Decision → Attended Turn
  | .suspend pc =>
    parkAll callers (.done (.finish (.ok .suspended) (m.setFrame current { a with pc })))
  | .proceed => tail

/-- A turn in front of an instruction asks about it. -/
theorem turn_ask (ha : m.frame? current = some a) {i : Instruction}
    (hi : a.closure.proto.instructions[a.pc]? = some i) {a' : Activation} {effect : Effect}
    (hp : m.perform { a with pc := a.pc + 1 } i = (m', a', effect)) :
    turn inner m (current :: callers) = .ask (.before (siteOf current a i))
      (gate m current callers a
        (settle inner (m'.setFrame current a') current callers a.pc i.code effect)) := by
  simp only [turn, ha, hi, hp]
  refine congrArg (Attended.ask (.before (siteOf current a i))) (funext fun decision => ?_)
  cases decision <;> rfl

/-- **A turn**: behind its last instruction a frame is left without a question. In front of any other
the hook may hold the frame up; if it does not, one of the tails follows. -/
theorem turn_cases (hinner : InnerKeeps inner) (h : m.Runs ground (current :: callers))
    (ha : m.frame? current = some a) :
    (a.closure.proto.instructions[a.pc]? = none ∧
      Tail inner m ground (current :: callers) current a.pc Op.returnCode
        (turn inner m (current :: callers))) ∨
    ∃ i tail, a.closure.proto.instructions[a.pc]? = some i ∧
      Tail inner m ground (current :: callers) current a.pc i.code tail ∧
      turn inner m (current :: callers) =
        .ask (.before (siteOf current a i)) (gate m current callers a tail) := by
  cases hi : a.closure.proto.instructions[a.pc]? with
  | none =>
    -- nothing runs, and the frame is left where it stands
    have hself : m.Moves current m :=
      ⟨.refl m, fun f b _ hb => .inl ⟨b, hb, rfl, rfl⟩⟩
    refine .inl ⟨rfl, ?_⟩
    simp only [turn, ha, hi]
    exact leaveTurn_tail h [] a.pc Op.returnCode m hself
  | some i =>
    rcases hp : m.perform { a with pc := a.pc + 1 } i with ⟨m₁, a₁, effect⟩
    exact .inr ⟨i, _, rfl, settle_tail hinner h ha hi hp, turn_ask ha hi hp⟩

/-- A run that fails leaves the ground. -/
theorem unwind_leaves {e e' : ExecError} {m₁ : Machine} (h : m.Runs ground stack)
    (hu : m.unwind stack e = .ok (e', m₁)) :
    m₁.frames = ground ∧ m.Grows m₁ ∧ m₁.Bounded := by
  unfold unwind at hu
  -- the stack of the error needs all callers; the machine is lost where one of them is missing
  cases hc : m.callerEntries stack.tail with
  | error reason =>
    rw [hc] at hu
    cases hu
  | ok entries =>
    rw [hc] at hu
    cases hu
    have hframes := h.abandoned (some (m.renderStack (e.through entries).stack))
    have hrest := abandon_rest
      { m with traceback := some (m.renderStack (e.through entries).stack) } stack
    have hgrows : m.Grows ({ m with traceback := _ }.abandon stack) := .of_eq hrest.1 hrest.2
    exact ⟨hframes, hgrows, h.bounded_of_ground hframes hgrows⟩

theorem detach_failTurn {e : ExecError} {t : Turn} (h : (m.failTurn stack e).detach = .ok t) :
    ∃ e' m₁, m.unwind stack e = .ok (e', m₁) ∧ t = .finish (.error e') m₁ := by
  simp only [failTurn, Attended.detach_ofExcept] at h
  cases hu : m.unwind stack e with
  | error reason =>
    rw [hu] at h
    cases h
  | ok p =>
    rw [hu] at h
    cases h
    exact ⟨p.1, p.2, rfl, rfl⟩

/-- A failed turn ends the run. -/
theorem failTurn_keeps {e : ExecError} {t : Turn} {m₁ : Machine} (h : m₁.Runs ground stack)
    (hg : m.Grows m₁) (ht : (m₁.failTurn stack e).detach = .ok t) :
    t.Orderly ground ∧ m.Grows t.machine := by
  obtain ⟨e', m₂, hu, rfl⟩ := detach_failTurn ht
  obtain ⟨hframes, hgrows, hbounded⟩ := unwind_leaves h hu
  exact ⟨⟨by simp, hframes, hbounded⟩, hg.trans hgrows⟩

/-- Every tail keeps the frames in order. -/
theorem Tail.keeps {pc : Nat} {code : UInt8} {tail : Attended Turn} {t : Turn}
    (htail : Tail inner m ground stack current pc code tail) (ht : tail.detach = .ok t) :
    t.Orderly ground ∧ m.Grows t.machine := by
  -- three of the ways end in an error that takes the whole stack down
  cases htail with
  | stop reason => cases ht
  | lost reason m₁ => cases ht
  | done m₁ t' orderly moves =>
    cases ht
    exact ⟨orderly, moves.grows⟩
  | overflow m₁ m₂ message frames grows bounded =>
    cases ht
    exact ⟨⟨by simp, frames, bounded⟩, grows⟩
  | fault m₁ message runs grows => exact failTurn_keeps runs grows ht
  | foreign m₁ e _ _ runs grows => exact failTurn_keeps runs grows ht
  | host m₁ e runs grows => exact failTurn_keeps runs grows ht

/-- **A turn without a debugger keeps the frames in order.** -/
theorem turn_keeps (hinner : InnerKeeps inner) (h : m.Runs ground stack) (hne : stack ≠ []) {t : Turn}
    (ht : (turn inner m stack).detach = .ok t) : t.Orderly ground ∧ m.Grows t.machine := by
  obtain ⟨current, callers, rfl⟩ := List.exists_cons_of_ne_nil hne
  obtain ⟨a, ha⟩ := h.live current List.mem_cons_self
  rcases turn_cases hinner h ha with ⟨-, htail⟩ | ⟨i, tail, -, htail, hturn⟩
  · exact htail.keeps ht
  · rw [hturn] at ht
    exact htail.keeps ht

end Turns

/-! ### Runs -/

section Budgets

variable {m m' : Machine} {ground : SortedMap FrameId Activation} {stack : List FrameId}
  {f : Value} {args : List Value} {r : RunResult}

/-- What a run of turns leaves, given that calls made by host functions keep the frames. -/
theorem run_restores_of {fuel : Nat}
    (hinner : ∀ n < fuel, InnerKeeps fun f args m => (call n f args m).detach)
    (h : m.Runs ground stack) (hne : stack ≠ [])
    (hrun : (run fuel stack m).detach = .ok (r, m')) :
    r ≠ .ok .suspended ∧ m'.frames = ground ∧ m'.Bounded ∧ m.Grows m' := by
  -- turn by turn; the stack and the machine change, the ground does not
  induction fuel generalizing stack m with
  | zero => cases hrun
  | succ fuel ih =>
    rw [run_succ] at hrun
    obtain ⟨t, ht, hrun⟩ := Attended.detach_bind_eq_ok.mp hrun
    obtain ⟨horderly, hgrows⟩ := turn_keeps (hinner fuel (Nat.lt_succ_self fuel)) h hne ht
    cases t with
    | goOn stack' m₁ =>
      have hinner' : ∀ n < fuel, InnerKeeps fun f args m => (call n f args m).detach :=
        fun n hn => hinner n (Nat.lt_succ_of_lt hn)
      obtain ⟨hr, hf, hb, hg⟩ := ih hinner' horderly.2 horderly.1 hrun
      exact ⟨hr, hf, hb, hgrows.trans hg⟩
    | finish result m₁ =>
      cases hrun
      exact ⟨horderly.1, horderly.2.1, horderly.2.2, hgrows⟩

/-- **A call without a debugger that ends leaves the frames that were there before it.** -/
theorem call_restores {fuel : Nat} (hb : m.Bounded)
    (hcall : (call fuel f args m).detach = .ok (r, m')) :
    r ≠ .ok .suspended ∧ m'.frames = m.frames ∧ m'.Bounded ∧ m.Grows m' := by
  induction fuel using Nat.strong_induction_on generalizing f args m r m' with
  | h fuel ih =>
    -- the calls of host functions have a smaller budget
    have hinner : ∀ n < fuel, InnerKeeps fun f args m => (call n f args m).detach := by
      intro n hn f args m r m' hb h
      obtain ⟨-, hf, -, hg⟩ := ih n hn hb h
      exact ⟨hf, hg⟩
    cases fuel with
    | zero => cases hcall
    | succ fuel =>
      cases hf : m.callable? f with
      | none =>
        rw [call_none hf] at hcall
        cases hcall
        exact ⟨by simp, rfl, hb, .refl _⟩
      | some callable =>
        cases callable with
        | closure closure =>
          rw [call_closure hf (fits_of_detach hf hcall)] at hcall
          have hruns := Runs.entered hb closure args
          have hinner' := fun n hn => hinner n (Nat.lt_succ_of_lt hn)
          obtain ⟨hr, hframes, hb', hg⟩ := run_restores_of hinner' hruns (by simp) hcall
          exact ⟨hr, hframes, hb', (Grows.enter m closure args).trans hg⟩
        | host body =>
          rw [call_host hf] at hcall
          obtain ⟨result, m₁, r', hbody, -, heq⟩ := detach_hostCall_eq_ok.mp hcall
          cases heq
          obtain ⟨hframes, hg⟩ :=
            host_run_keeps (hinner fuel (Nat.lt_succ_self fuel)) (body args) hb hbody
          refine ⟨?_, hframes, hb.of_frames hframes hg, hg⟩
          -- a host function is never held up
          cases r' <;> simp [Except.map]

theorem innerKeeps_call (fuel : Nat) : InnerKeeps fun f args m => (call fuel f args m).detach := by
  intro f args m r m' hb h
  obtain ⟨-, hf, -, hg⟩ := call_restores hb h
  exact ⟨hf, hg⟩

/-- **A run without a debugger that ends leaves the frames of the ground.** -/
theorem run_restores {fuel : Nat} (h : m.Runs ground stack) (hne : stack ≠ [])
    (hrun : (run fuel stack m).detach = .ok (r, m')) :
    r ≠ .ok .suspended ∧ m'.frames = ground ∧ m'.Bounded ∧ m.Grows m' :=
  run_restores_of (fun n _ => innerKeeps_call n) h hne hrun

end Budgets

end Machine

end BytecodeDebugger
