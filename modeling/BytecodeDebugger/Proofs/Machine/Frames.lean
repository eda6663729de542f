import BytecodeDebugger.Proofs.Attended
import BytecodeDebugger.Proofs.Machine.Instruction
import Mathlib.Data.List.Chain

/-!
# The frames of a run

A run works on a stack of frames, innermost first. `Runs m ground stack` says how the stack lies in
the machine: every frame of the stack is live, each one but the innermost waits in a call for the one
inside it (`Waits`), and all frames that are not on the stack are those of `ground`, the frames that
were there before the run and that it never touches.

A stack changes in five ways, and each of them keeps it in order:

* `Runs.update` — the innermost frame goes on;
* `Runs.extend`, and `Runs.push` for a call — a new frame is laid on top;
* `Runs.pop` — the innermost frame is left, and its caller goes on;
* `Runs.last`, `Runs.abandoned` — the run is over, and the frames of `ground` are left.

A host function may call functions of the language in the middle of a turn. Such an inner call is a
run whose ground is everything outside, the calling stack included, which is why `ground` is a
parameter and not the empty map.
-/

namespace BytecodeDebugger.Machine

/-! ### Looking up frames -/

section Lookup

variable (m : Machine) (f g : FrameId) (a : Activation)

theorem frame?_setFrame :
    (m.setFrame f a).frame? g = if g = f then some a else m.frame? g := by
  simp only [frame?, setFrame, SortedMap.get?_insert]

theorem frame?_dropFrame : (m.dropFrame f).frame? g = if g = f then none else m.frame? g := by
  simp only [frame?, dropFrame, SortedMap.get?_erase]

theorem frame?_abandon (stack : List FrameId) :
    (m.abandon stack).frame? g = if g ∈ stack then none else m.frame? g := by
  unfold abandon
  -- frame by frame; a frame that is dropped twice is gone as well
  induction stack generalizing m with
  | nil => simp
  | cons f stack ih =>
    rw [List.foldl_cons, ih, frame?_dropFrame]
    by_cases hs : g ∈ stack
    · simp [hs]
    · by_cases hf : g = f <;> simp [hs, hf]

theorem abandon_rest (stack : List FrameId) :
    (m.abandon stack).functions = m.functions ∧ (m.abandon stack).nextFrame = m.nextFrame := by
  unfold abandon
  induction stack generalizing m with
  | nil => exact ⟨rfl, rfl⟩
  | cons f stack ih => exact ih (m.dropFrame f)

theorem frame?_enter (closure : Closure) (args : List Value) :
    ∃ b : Activation, b.closure = closure ∧ b.pending = none ∧
      ∀ g, (m.enter closure args).2.frame? g =
        if g = m.nextFrame then some b else m.frame? g := by
  refine ⟨_, ?_, ?_, fun g => frame?_setFrame m m.nextFrame g _⟩
  · rfl
  · rfl

end Lookup

/-- Every live frame has an id that was already used. -/
def Bounded (m : Machine) : Prop := ∀ f a, m.frame? f = some a → f < m.nextFrame

/-- Without frames nothing has to be known. -/
theorem Bounded.of_empty {m : Machine} (h : m.frames = .empty) : m.Bounded := by
  intro f a ha
  have hnone : m.frame? f = none := by
    simp only [frame?, h]
    rfl
  rw [hnone] at ha
  cases ha

/-- The next id is free. -/
theorem Bounded.unused {m : Machine} (h : m.Bounded) : m.frame? m.nextFrame = none := by
  cases hf : m.frame? m.nextFrame with
  | none => rfl
  | some a => exact absurd (h _ a hf) (Nat.lt_irrefl _)

/-! ### Waiting for a call -/

/-- **`caller` waits for `callee`**: the instruction that it ran last is a call, the results of this
call are still due, and the register that the call names holds the function that `callee` runs. -/
def Waits (m : Machine) (caller callee : FrameId) : Prop :=
  caller < callee ∧ ∃ a b i, m.frame? caller = some a ∧ m.frame? callee = some b ∧ 0 < a.pc ∧
    a.closure.proto.instructions[a.pc - 1]? = some i ∧ Op.ofCode i.code = .call ∧
    a.pending = some (i.a.toNat, i.c) ∧
    m.callable? (a.register i.a.toNat) = some (.closure b.closure)

/-- Waiting depends on the caller's activation, on the callee's function, and on the functions there
are. -/
theorem Waits.transport {m m' : Machine} {caller callee : FrameId} (h : m.Waits caller callee)
    (hg : m.Grows m') (hcaller : m'.frame? caller = m.frame? caller)
    (hcallee : ∀ b, m.frame? callee = some b →
      ∃ b', m'.frame? callee = some b' ∧ b'.closure = b.closure) :
    m'.Waits caller callee := by
  obtain ⟨hlt, a, b, i, ha, hb, hpc, hi, hop, hp, hc⟩ := h
  obtain ⟨b', hb', hclosure⟩ := hcallee b hb
  refine ⟨hlt, a, b', i, hcaller.trans ha, hb', hpc, hi, hop, hp, ?_⟩
  rw [hclosure]
  exact hg.callable hc

/-! ### Stacks in a machine -/

/-- **How a run's stack lies in the machine**, above the frames of `ground`. -/
structure Runs (m : Machine) (ground : SortedMap FrameId Activation) (stack : List FrameId) :
    Prop where
  /-- every frame waits for the one inside it -/
  chain : stack.IsChain fun callee caller => m.Waits caller callee
  live : ∀ f ∈ stack, ∃ a, m.frame? f = some a
  /-- the frames of the stack are none of the ground's -/
  apart : ∀ f ∈ stack, ground.get? f = none
  rest : ∀ f, f ∉ stack → m.frame? f = ground.get? f
  bounded : m.Bounded

namespace Runs

variable {m m' : Machine} {ground : SortedMap FrameId Activation} {stack : List FrameId}

/-- Inner frames have the greater ids. -/
theorem decreasing (h : m.Runs ground stack) : stack.Pairwise (· > ·) :=
  (h.chain.imp fun _ _ hw => hw.1).pairwise

theorem nodup (h : m.Runs ground stack) : stack.Nodup :=
  h.decreasing.imp fun hlt => Nat.ne_of_gt hlt

/-- A machine at rest, seen as a run that has not begun. -/
theorem nil (hb : m.Bounded) : m.Runs m.frames [] :=
  ⟨.nil, by simp, by simp, fun _ _ => rfl, hb⟩

/-- Growing without touching frames keeps a stack where it is. -/
theorem of_grows (h : m.Runs ground stack) (hf : m'.frames = m.frames) (hg : m.Grows m') :
    m'.Runs ground stack := by
  -- every look-up gives what it gave before
  have hframe : ∀ f, m'.frame? f = m.frame? f := fun f => congrArg (·.get? f) hf
  refine ⟨h.chain.imp fun callee caller hw => ?_, fun f hs => ?_, h.apart, fun f hs => ?_,
    fun f a ha => ?_⟩
  · exact hw.transport hg (hframe caller) fun b hb => ⟨b, (hframe callee).trans hb, rfl⟩
  · rw [hframe]
    exact h.live f hs
  · rw [hframe]
    exact h.rest f hs
  · rw [hframe] at ha
    exact Nat.lt_of_lt_of_le (h.bounded f a ha) hg.nextFrame

/-- A run that is over has left the ground alone. -/
theorem frames_eq (h : m.Runs ground []) : m.frames = ground :=
  SortedMap.ext_get? fun f => h.rest f (by simp)

/-- **The innermost frame goes on**: its registers and counter may change, its function may not. -/
theorem update {current : FrameId} {callers : List FrameId} {a a' : Activation}
    (h : m.Runs ground (current :: callers)) (ha : m.frame? current = some a)
    (hframes : ∀ f, m'.frame? f = if f = current then some a' else m.frame? f)
    (hclosure : a'.closure = a.closure) (hg : m.Grows m') :
    m'.Runs ground (current :: callers) where
  chain := by
    -- the callers have smaller ids, so that none of them is the frame that moves
    have hne : ∀ f ∈ callers, f ≠ current := fun f hf =>
      Nat.ne_of_lt (List.rel_of_pairwise_cons h.decreasing hf)
    refine h.chain.imp_of_mem_tail_imp fun callee caller _ hcaller hw => ?_
    have hcaller' : caller ∈ callers := hcaller
    refine hw.transport hg ?_ fun b hb => ?_
    · rw [hframes, if_neg (hne caller hcaller')]
    -- the innermost pair is the one whose callee moves, and its function stays
    · by_cases hc : callee = current
      · subst hc
        rw [ha] at hb
        cases hb
        exact ⟨a', by rw [hframes, if_pos rfl], hclosure⟩
      · exact ⟨b, by rw [hframes, if_neg hc]; exact hb, rfl⟩
  live f hf := by
    rw [hframes]
    by_cases hc : f = current
    · exact ⟨a', if_pos hc⟩
    · rw [if_neg hc]; exact h.live f hf
  apart := h.apart
  rest f hf := by
    have hc : f ≠ current := fun hc => hf (hc ▸ List.mem_cons_self)
    rw [hframes, if_neg hc]
    exact h.rest f hf
  bounded f b hb := by
    rw [hframes] at hb
    by_cases hc : f = current
    · subst hc
      exact Nat.lt_of_lt_of_le (h.bounded f a ha) hg.nextFrame
    · rw [if_neg hc] at hb
      exact Nat.lt_of_lt_of_le (h.bounded f b hb) hg.nextFrame

/-- **A frame is laid on top**, with an id that no frame had. The frame below, if there is one, has to
wait for it. -/
theorem extend {b : Activation} (h : m.Runs ground stack)
    (hframes : ∀ f, m'.frame? f = if f = m.nextFrame then some b else m.frame? f)
    (hnext : m'.nextFrame = m.nextFrame + 1) (hg : m.Grows m')
    (hwaits : ∀ caller ∈ stack.head?, m'.Waits caller m.nextFrame) :
    m'.Runs ground (m.nextFrame :: stack) := by
  -- the frames there were have other ids, and are as before
  have hold : ∀ f a, m.frame? f = some a → m'.frame? f = some a := by
    intro f a ha
    have hne : f ≠ m.nextFrame := Nat.ne_of_lt (h.bounded f a ha)
    rw [hframes, if_neg hne]
    exact ha
  have hnew : m.nextFrame ∉ stack := by
    intro hmem
    obtain ⟨a, ha⟩ := h.live _ hmem
    exact Nat.lt_irrefl _ (h.bounded _ a ha)
  refine ⟨List.isChain_cons.mpr ⟨hwaits, ?_⟩, ?_, ?_, ?_, ?_⟩
  · refine h.chain.imp_of_mem_imp fun callee caller _ hcaller hw => ?_
    obtain ⟨a, ha⟩ := h.live caller hcaller
    exact hw.transport hg ((hold caller a ha).trans ha.symm) fun y hy => ⟨y, hold callee y hy, rfl⟩
  · intro f hf
    rcases List.mem_cons.mp hf with rfl | hf
    · exact ⟨b, by rw [hframes, if_pos rfl]⟩
    · obtain ⟨a, ha⟩ := h.live f hf
      exact ⟨a, hold f a ha⟩
  · intro f hf
    rcases List.mem_cons.mp hf with rfl | hf
    · rw [← h.rest m.nextFrame hnew]
      exact h.bounded.unused
    · exact h.apart f hf
  · intro f hf
    have hne : f ≠ m.nextFrame := fun hc => hf (hc ▸ List.mem_cons_self)
    rw [hframes, if_neg hne]
    exact h.rest f fun hmem => hf (List.mem_cons_of_mem _ hmem)
  · intro f a ha
    rw [hnext]
    rw [hframes] at ha
    split at ha
    · next hc => exact hc ▸ Nat.lt_succ_self m.nextFrame
    · exact Nat.lt_succ_of_lt (h.bounded f a ha)

/-- A call is entered above the frames there are. -/
theorem entered (hb : m.Bounded) (closure : Closure) (args : List Value) :
    (m.enter closure args).2.Runs m.frames [m.nextFrame] := by
  obtain ⟨b, -, -, hframes⟩ := frame?_enter m closure args
  exact (Runs.nil hb).extend hframes rfl (.enter m closure args) (by simp)

/-- **A call is entered**: the new frame has an id that no frame had, and the caller waits for it. -/
theorem push {current : FrameId} {callers : List FrameId} {a : Activation} {i : Instruction}
    {closure : Closure} (h : m.Runs ground (current :: callers)) (args : List Value)
    (ha : m.frame? current = some a) (hi : a.closure.proto.instructions[a.pc]? = some i)
    (hop : Op.ofCode i.code = .call)
    (hcall : m.callable? (a.register i.a.toNat) = some (.closure closure)) :
    ((m.enter closure args).2.setFrame current
      { a with pc := a.pc + 1, pending := some (i.a.toNat, i.c) }).Runs ground
        (m.nextFrame :: current :: callers) := by
  obtain ⟨b, hbc, -, hb⟩ := frame?_enter m closure args
  set a' : Activation := { a with pc := a.pc + 1, pending := some (i.a.toNat, i.c) } with ha'
  set m' := (m.enter closure args).2.setFrame current a' with hm'
  -- the caller goes on behind its call, and then the new frame is laid on top
  have hcaller : (m.setFrame current a').Runs ground (current :: callers) :=
    h.update ha (fun f => frame?_setFrame m current f a') rfl (.of_eq rfl rfl)
  have hlt : current < m.nextFrame := h.bounded current a ha
  have hgrows : m.Grows m' := (Grows.enter m closure args).trans (.of_eq rfl rfl)
  have hframes : ∀ f, m'.frame? f =
      if f = m.nextFrame then some b else (m.setFrame current a').frame? f := by
    intro f
    rw [hm', frame?_setFrame, hb, frame?_setFrame]
    by_cases hc : f = current
    · rw [if_pos hc, if_pos hc, if_neg (hc ▸ Nat.ne_of_lt hlt)]
    · rw [if_neg hc, if_neg hc]
  refine hcaller.extend hframes rfl ⟨hgrows.functions, hgrows.hosts, hgrows.nextFrame⟩ ?_
  intro caller hhead
  cases hhead
  -- the caller's call is the instruction it has just passed
  refine ⟨hlt, a', b, i, ?_, ?_, Nat.succ_pos _, hi, hop, rfl, ?_⟩
  · rw [hm', frame?_setFrame, if_pos rfl]
  · rw [hframes]
    exact if_pos rfl
  · rw [hbc]
    exact hgrows.callable hcall

/-- **The innermost frame is left**, and its caller goes on with the results. -/
theorem pop {current caller : FrameId} {callers : List FrameId} {a : Activation}
    (h : m.Runs ground (current :: caller :: callers))
    (ha : (m.dropFrame current).frame? caller = some a) (values : List Value) :
    ((m.dropFrame current).setFrame caller (a.deliver values)).Runs ground (caller :: callers) := by
  have hdec := h.decreasing
  -- ids go down along the stack
  have hcurrent : current ∉ caller :: callers := fun hmem =>
    Nat.lt_irrefl _ (List.rel_of_pairwise_cons hdec hmem)
  have hrest : ∀ f ∈ caller :: callers, (m.dropFrame current).frame? f = m.frame? f := by
    intro f hf
    have hc : f ≠ current := fun hc => hcurrent (hc ▸ hf)
    rw [frame?_dropFrame, if_neg hc]
  -- first the frame is dropped, then the caller gets its results
  have hdrop : (m.dropFrame current).Runs ground (caller :: callers) := by
    refine ⟨?_, ?_, ?_, ?_, ?_⟩
    · have hchain : (caller :: callers).IsChain fun callee caller => m.Waits caller callee :=
        h.chain.of_cons
      refine hchain.imp_of_mem_imp fun callee caller' hcallee hcaller hw => ?_
      refine hw.transport (.of_eq rfl rfl) (hrest caller' hcaller) fun b hb => ?_
      exact ⟨b, (hrest callee hcallee).trans hb, rfl⟩
    · intro f hf
      rw [hrest f hf]
      exact h.live f (List.mem_cons_of_mem _ hf)
    · exact fun f hf => h.apart f (List.mem_cons_of_mem _ hf)
    · intro f hf
      rw [frame?_dropFrame]
      -- the frame that was dropped is none of the ground's
      by_cases hc : f = current
      · rw [if_pos hc, hc, h.apart current List.mem_cons_self]
      · rw [if_neg hc]
        refine h.rest f fun hmem => ?_
        rcases List.mem_cons.mp hmem with hc' | hmem
        · exact hc hc'
        · exact hf hmem
    · intro f b hb
      rw [frame?_dropFrame] at hb
      split at hb
      · cases hb
      · exact h.bounded f b hb
  exact hdrop.update ha (fun f => frame?_setFrame _ _ _ _) (deliver_frame a values).1
    (.of_eq rfl rfl)

/-- **The last frame is left.** -/
theorem last {current : FrameId} (h : m.Runs ground [current]) :
    (m.dropFrame current).frames = ground := by
  refine SortedMap.ext_get? fun f => ?_
  change (m.dropFrame current).frame? f = _
  rw [frame?_dropFrame]
  split
  · next hc => rw [hc, h.apart current List.mem_cons_self]
  · next hc => exact h.rest f (by simpa using hc)

/-- **The run is abandoned**, whatever is rendered of it. -/
theorem abandoned (h : m.Runs ground stack) (traceback : Option String) :
    ({ m with traceback }.abandon stack).frames = ground := by
  refine SortedMap.ext_get? fun f => ?_
  change ({ m with traceback }.abandon stack).frame? f = _
  rw [frame?_abandon]
  split
  · next hf => rw [h.apart f hf]
  · next hf => exact h.rest f hf

end Runs

end BytecodeDebugger.Machine
