import BytecodeDebugger.Proofs.Engine.Works
import BytecodeDebugger.Proofs.Machine.Turn

/-!
# Barriers and the history of stops

Whether a frame stops on a line depends on its past: it must not have stopped there already and run
nothing but this line since. The engine does not keep the past. It keeps one *barrier* for each frame,
which several paths set, drop and clear. This file shows that the barriers say the same as the
history.

The history is a list of visits, a visit being an instruction about to run together with the engine
that is asked about it. `Lingers past f l` is the condition on the past, `Tracks past e m` is the
invariant: a barrier is never there without its reason in the history (`sound`), and for every live
frame it is there whenever the history has a reason (`complete`), unless the frame stands on the line
of its barrier already — a frame that was held up twice in a row has a reason for both lines and a
barrier for the second.

Main statements:

* `Tracks.held`, `Tracks.passed`, `Tracks.left` — what one turn does to barriers and history;
* `Tracks.stopsAfter` — an engine that watches a run decides by the history.
-/

namespace BytecodeDebugger

/-! ### Visits -/

/-- **A visit**: an instruction about to run, and the engine that is asked about it. -/
structure Visit where
  engine : Engine
  site : Site

namespace Visit

variable (v : Visit)

/-- The engine holds the frame up. -/
def Held : Prop := ∃ pc, (Engine.reply (.before v.site) v.engine).1 = Decision.suspend pc

/-- The line of the instruction. -/
def location : SourceLocation := Engine.locationOf v.site

/-- **Something asks for a stop**: stepping that concerns the frame, or an armed breakpoint. -/
def Wanted : Prop :=
  (v.engine.stepping.on = true ∧
    (v.engine.stepping.target = none ∨ v.engine.stepping.target = some (.call v.site.frame))) ∨
  (v.engine.breakpoints.stops = true ∧
    v.engine.breakpoints.flags.flagAt v.site.file v.site.line = true)

theorem held_iff : v.Held ↔ v.engine.shouldSuspend v.site = true := by
  unfold Held Engine.reply
  dsimp only
  split
  · next h => exact ⟨fun _ => h, fun _ => ⟨_, rfl⟩⟩
  · next h =>
    constructor
    · rintro ⟨pc, hpc⟩
      cases hpc
    · intro hs
      exact absurd hs h

theorem wanted_iff : v.Wanted ↔ v.engine.wantsStop v.site = true := by
  unfold Wanted Engine.wantsStop Stepping.breaksIn Breakpoints.stopsAt
  rw [Bool.or_eq_true, Bool.and_eq_true, Bool.and_eq_true]
  cases v.engine.stepping.target <;> simp

end Visit

/-! ### Lingering -/

/-- **The frame was held up on this line and has run nothing but this line since.** -/
def Lingers (past : List Visit) (frame : FrameId) (location : SourceLocation) : Prop :=
  ∃ before v after, past = before ++ v :: after ∧ v.site.frame = frame ∧ v.Held ∧
    v.location = location ∧ ∀ w ∈ after, w.site.frame = frame → ¬w.Held → w.location = location

section Lingering

variable {past : List Visit} {v : Visit} {f : FrameId} {l : SourceLocation}

/-- One more visit: it is the stop in question, or it does not end the lingering. -/
theorem lingers_snoc :
    Lingers (past ++ [v]) f l ↔ (v.site.frame = f ∧ v.Held ∧ v.location = l) ∨
      (Lingers past f l ∧ (v.site.frame = f → ¬v.Held → v.location = l)) := by
  constructor
  · rintro ⟨before, w, after, heq, hf, hw, hl, hafter⟩
    -- the stop is the new visit, or the new visit is among those after it
    rcases List.eq_nil_or_concat after with rfl | ⟨after', u, rfl⟩
    · obtain ⟨rfl, hlast⟩ := List.append_inj' heq rfl
      cases hlast
      exact .inl ⟨hf, hw, hl⟩
    · rw [List.concat_eq_append] at heq hafter
      have heq' : past ++ [v] = (before ++ w :: after') ++ [u] := by
        rw [heq, List.append_assoc, List.cons_append]
      obtain ⟨rfl, hlast⟩ := List.append_inj' heq' rfl
      cases hlast
      refine .inr ⟨⟨before, w, after', rfl, hf, hw, hl, fun x hx => ?_⟩, ?_⟩
      · exact hafter x (List.mem_append_left _ hx)
      · exact hafter v (by simp)
  · rintro (⟨hf, hv, hl⟩ | ⟨⟨before, w, after, rfl, hf, hw, hl, hafter⟩, hv⟩)
    · exact ⟨past, v, [], rfl, hf, hv, hl, by simp⟩
    · refine ⟨before, w, after ++ [v], by simp, hf, hw, hl, fun x hx => ?_⟩
      rcases List.mem_append.mp hx with hx | hx
      · exact hafter x hx
      · rw [List.mem_singleton.mp hx]
        exact hv

/-- Visits of other frames do not matter. -/
theorem lingers_snoc_other (hf : v.site.frame ≠ f) : Lingers (past ++ [v]) f l ↔ Lingers past f l := by
  rw [lingers_snoc]
  constructor
  · rintro (⟨hc, -⟩ | ⟨h, -⟩)
    · exact absurd hc hf
    · exact h
  · intro h
    exact .inr ⟨h, fun hc => absurd hc hf⟩

/-- A frame that runs an instruction lingers on the line of this instruction, if at all. -/
theorem lingers_snoc_passed (hv : ¬v.Held) :
    Lingers (past ++ [v]) v.site.frame l ↔ Lingers past v.site.frame l ∧ v.location = l := by
  rw [lingers_snoc]
  constructor
  · rintro (⟨-, hc, -⟩ | ⟨h, himp⟩)
    · exact absurd hc hv
    · exact ⟨h, himp rfl hv⟩
  · rintro ⟨h, hl⟩
    exact .inr ⟨h, fun _ _ => hl⟩

/-- A frame that was never visited does not linger. -/
theorem not_lingers (h : ∀ v ∈ past, v.site.frame ≠ f) : ¬Lingers past f l := by
  rintro ⟨before, v, after, rfl, hf, -⟩
  exact h v (by simp) hf

end Lingering

/-- **The engine decides by the history.** -/
def Visit.StopsAfter (v : Visit) (past : List Visit) : Prop :=
  v.Held ↔ v.Wanted ∧ v.site.opcode ∉ v.engine.config.excludedOpcodes ∧
    ¬Lingers past v.site.frame v.location

/-! ### Barriers -/

/-- The line on which a frame stands. -/
def Activation.location (a : Activation) : SourceLocation :=
  ⟨a.closure.file, a.closure.proto.lineAt a.pc⟩

/-- **The barriers of an engine say what the history says.** -/
structure Tracks (past : List Visit) (e : Engine) (m : Machine) : Prop where
  /-- ids of frames are used once -/
  used : ∀ v ∈ past, v.site.frame < m.nextFrame
  sound : ∀ f l, e.barriers.get? f = some l → Lingers past f l
  complete : ∀ f a, m.frame? f = some a → e.barriers.get? f = some a.location ∨
    ∀ l, Lingers past f l → e.barriers.get? f = some l

namespace Tracks

variable {past : List Visit} {e e' : Engine} {m m' : Machine} {current : FrameId} {a : Activation}
  {i : Instruction}

/-- Nothing happened yet. -/
theorem fresh (hb : e.barriers = .empty) : Tracks [] e m where
  used := by simp
  sound f l h := by
    rw [hb] at h
    cases h
  complete f a _ := .inr fun l h => absurd h (not_lingers (by simp))

/-- When all frames are gone, the history does not matter any more. -/
theorem ended (hused : ∀ v ∈ past, v.site.frame < m.nextFrame) (hb : e.barriers = .empty)
    (hm : m.frames = .empty) : Tracks past e m where
  used := hused
  sound f l h := by
    rw [hb] at h
    cases h
  complete f a h := by
    have hnone : m.frame? f = none := by
      simp only [Machine.frame?, hm]
      rfl
    rw [hnone] at h
    cases h

/-- The rest of the engine does not matter. -/
theorem of_barriers (h : Tracks past e m) (hb : e'.barriers = e.barriers) : Tracks past e' m where
  used := h.used
  sound f l hl := h.sound f l (by rw [← hb]; exact hl)
  complete f a ha := by
    rw [hb]
    exact h.complete f a ha

/-- Nor does the rest of the machine. -/
theorem of_grows (h : Tracks past e m) (hf : m'.frames = m.frames) (hg : m.Grows m') :
    Tracks past e m' where
  used v hv := Nat.lt_of_lt_of_le (h.used v hv) hg.nextFrame
  sound := h.sound
  complete f a ha := by
    refine h.complete f a ?_
    rw [← ha]
    exact congrArg (·.get? f) hf.symm

/-- The call of a function adds a frame. -/
theorem entered (h : Tracks past e m) (closure : Closure) (args : List Value) :
    Tracks past e (m.enter closure args).2 := by
  obtain ⟨b, -, -, hframes⟩ := Machine.frame?_enter m closure args
  refine ⟨fun v hv => Nat.lt_succ_of_lt (h.used v hv), h.sound, fun f a ha => ?_⟩
  rw [hframes] at ha
  split at ha
  · next hnew =>
    -- the id is new, so that the frame has no history
    refine .inr fun l hl => absurd hl (not_lingers fun v hv => ?_)
    rw [hnew]
    exact Nat.ne_of_lt (h.used v hv)
  · exact h.complete f a ha

/-- **A step of the machine**: frames that do not move keep their history, new frames have none. -/
theorem others (h : Tracks past e m) (hmoves : m.Moves current m') {f : FrameId} {b : Activation}
    (hf : f ≠ current) (hb : m'.frame? f = some b) :
    e.barriers.get? f = some b.location ∨
      ∀ l, Lingers past f l → e.barriers.get? f = some l := by
  -- a frame that was there stands where it stood
  rcases hmoves.others f b hf hb with ⟨a, ha, hclosure, hpc⟩ | hnew
  · have hlocation : b.location = a.location := by
      unfold Activation.location
      rw [hclosure, hpc]
    rw [hlocation]
    exact h.complete f a ha
  · refine .inr fun l hl => absurd hl (not_lingers fun v hv => ?_)
    exact Nat.ne_of_lt (Nat.lt_of_lt_of_le (h.used v hv) hnew)

/-- A further visit has an id that was used. -/
theorem used_snoc (h : Tracks past e m) (hb : m.Bounded) (ha : m.frame? current = some a) :
    ∀ v ∈ past ++ [⟨e, Machine.siteOf current a i⟩], v.site.frame < m.nextFrame := by
  intro v hv
  rcases List.mem_append.mp hv with hv | hv
  · exact h.used v hv
  · rw [List.mem_singleton.mp hv]
    exact hb current a ha

/-! ### The barriers after a turn -/

theorem barriers_hold (e : Engine) (site : Site) (callers : List FrameId) :
    (e.hold site callers).barriers = e.barriers.insert site.frame (Engine.locationOf site) := by
  unfold Engine.hold
  rw [Engine.foldl_park]
  exact Engine.barriers_transition _ _ _

/-- The frame that ran an instruction keeps its barrier if the instruction stands on that line and is
no return. -/
theorem barrier_passed (e : Engine) (current : FrameId) (a : Activation) (i : Instruction) :
    ((e.passBy (Machine.siteOf current a i)).instructionDone current i.code).barriers.get? current =
      if i.code ≠ Op.returnCode ∧ e.barriers.get? current = some a.location then some a.location
      else none := by
  have hsite : Engine.locationOf (Machine.siteOf current a i) = a.location := rfl
  unfold Engine.instructionDone Engine.passBy
  rw [hsite]
  dsimp only [Machine.siteOf]
  -- a return drops the barrier, whatever the line
  by_cases hcode : i.code = Op.returnCode
  · rw [if_pos hcode, SortedMap.get?_erase, if_pos rfl, if_neg fun hc => hc.1 hcode]
  · rw [if_neg hcode]
    cases hget : e.barriers.get? current with
    | none => simp [hget]
    | some l =>
      by_cases hl : l = a.location
      · simp [hl, hget, hcode]
      · simp [hl, SortedMap.get?_erase]

/-- The other frames keep theirs. -/
theorem barrier_passed_other (e : Engine) (a : Activation) (i : Instruction) {f : FrameId}
    (hf : f ≠ current) :
    ((e.passBy (Machine.siteOf current a i)).instructionDone current i.code).barriers.get? f =
      e.barriers.get? f := by
  have herase : ∀ (map : SortedMap FrameId SourceLocation),
      (map.erase current).get? f = map.get? f := by
    intro map
    rw [SortedMap.get?_erase, if_neg hf]
  -- the barrier of the current frame may be dropped twice, and no other one is touched
  have hpass : (e.passBy (Machine.siteOf current a i)).barriers.get? f = e.barriers.get? f := by
    unfold Engine.passBy
    dsimp only [Machine.siteOf]
    cases e.barriers.get? current with
    | none => rfl
    | some l =>
      dsimp only
      split
      · exact herase _
      · rfl
  unfold Engine.instructionDone
  dsimp only
  split
  · exact (herase _).trans hpass
  · exact hpass

/-! ### The history after a turn -/

/-- **The frame is held up.** -/
theorem held (h : Tracks past e m) (hb : m.Bounded) (ha : m.frame? current = some a)
    (hheld : e.shouldSuspend (Machine.siteOf current a i) = true) (callers : List FrameId) :
    Tracks (past ++ [⟨e, Machine.siteOf current a i⟩])
      (e.hold (Machine.siteOf current a i) callers) m := by
  have hv : Visit.Held ⟨e, Machine.siteOf current a i⟩ := (Visit.held_iff _).mpr hheld
  -- the frame gets the line of this instruction as its barrier, the others keep theirs
  have hget : ∀ f, (e.hold (Machine.siteOf current a i) callers).barriers.get? f =
      if f = current then some a.location else e.barriers.get? f := by
    intro f
    rw [barriers_hold, SortedMap.get?_insert]
    rfl
  refine ⟨h.used_snoc hb ha, fun f l hl => ?_, fun f b hfb => ?_⟩
  · rw [hget] at hl
    split at hl
    · next hf =>
      cases hl
      exact lingers_snoc.mpr (.inl ⟨hf.symm, hv, rfl⟩)
    · next hf => exact (lingers_snoc_other (Ne.symm hf)).mpr (h.sound f l hl)
  · rw [hget]
    split
    · next hf =>
      -- the frame stands on the line of its barrier
      rw [hf, ha] at hfb
      cases hfb
      exact .inl rfl
    · next hf =>
      rcases h.complete f b hfb with hloc | hall
      · exact .inl hloc
      · exact .inr fun l hl => hall l ((lingers_snoc_other (Ne.symm hf)).mp hl)

section Passing

variable (i) (h : Tracks past e m) (hv : ¬Visit.Held ⟨e, Machine.siteOf current a i⟩)

include h hv

/-- A barrier that is left when an instruction has run is on the line of this instruction. -/
theorem sound_passed {f : FrameId} {l : SourceLocation}
    (hl : ((e.passBy (Machine.siteOf current a i)).instructionDone current i.code).barriers.get? f =
      some l) : Lingers (past ++ [⟨e, Machine.siteOf current a i⟩]) f l := by
  by_cases hf : f = current
  · rw [hf] at hl ⊢
    rw [barrier_passed] at hl
    split at hl
    · next hkept =>
      cases hl
      exact (lingers_snoc_passed hv).mpr ⟨h.sound current _ hkept.2, rfl⟩
    · cases hl
  · rw [barrier_passed_other e a i hf] at hl
    exact (lingers_snoc_other (Ne.symm hf)).mpr (h.sound f l hl)

/-- The frame that ran an instruction, if it is still there, has a barrier for its reason to have
one. -/
theorem complete_passed (ha : m.frame? current = some a) (hcode : i.code ≠ Op.returnCode)
    {l : SourceLocation} (hl : Lingers (past ++ [⟨e, Machine.siteOf current a i⟩]) current l) :
    ((e.passBy (Machine.siteOf current a i)).instructionDone current i.code).barriers.get? current =
      some l := by
  obtain ⟨hlingers, hloc⟩ := (lingers_snoc_passed hv).mp hl
  have hloc' : a.location = l := hloc
  -- the frame stood on the line of its barrier, or the barriers knew all its reasons
  have hbar : e.barriers.get? current = some a.location := by
    rcases h.complete current a ha with hbar | hall
    · exact hbar
    · rw [hloc']
      exact hall l hlingers
  rw [barrier_passed, if_pos ⟨hcode, hbar⟩, hloc']

end Passing

/-- **The instruction runs.** -/
theorem passed (h : Tracks past e m) (hb : m.Bounded) (ha : m.frame? current = some a)
    (hpasses : e.shouldSuspend (Machine.siteOf current a i) = false) (hmoves : m.Moves current m')
    (hgone : i.code = Op.returnCode → m'.frame? current = none) :
    Tracks (past ++ [⟨e, Machine.siteOf current a i⟩])
      ((e.passBy (Machine.siteOf current a i)).instructionDone current i.code) m' := by
  -- the instruction was visited and not held up
  have hv : ¬Visit.Held ⟨e, Machine.siteOf current a i⟩ := by
    rw [Visit.held_iff]
    exact Bool.eq_false_iff.mp hpasses
  refine ⟨fun v hmem => ?_, fun f l hl => h.sound_passed i hv hl, fun f b hfb => ?_⟩
  · exact Nat.lt_of_lt_of_le (h.used_snoc hb ha v hmem) hmoves.grows.nextFrame
  · by_cases hf : f = current
    · rw [hf] at hfb ⊢
      -- the current frame is still there, so that it did not return
      have hcode : i.code ≠ Op.returnCode := by
        intro hcode
        rw [hgone hcode] at hfb
        cases hfb
      exact .inr fun l hl => h.complete_passed i hv ha hcode hl
    · rw [barrier_passed_other e a i hf]
      rcases h.others hmoves hf hfb with hloc | hall
      · exact .inl hloc
      · exact .inr fun l hl => hall l ((lingers_snoc_other (Ne.symm hf)).mp hl)

/-- **A frame is left** behind its last instruction, without a visit. -/
theorem left (h : Tracks past e m) (hmoves : m.Moves current m')
    (hgone : m'.frame? current = none) :
    Tracks past (e.instructionDone current Op.returnCode) m' := by
  -- what returns loses its barrier, and the others keep theirs
  have hget : ∀ f, (e.instructionDone current Op.returnCode).barriers.get? f =
      if f = current then none else e.barriers.get? f := by
    intro f
    exact SortedMap.get?_erase _ _ _
  refine ⟨fun v hmem => ?_, fun f l hl => ?_, fun f b hfb => ?_⟩
  · exact Nat.lt_of_lt_of_le (h.used v hmem) hmoves.grows.nextFrame
  · rw [hget] at hl
    split at hl
    · cases hl
    · exact h.sound f l hl
  · have hf : f ≠ current := by
      intro hf
      rw [hf, hgone] at hfb
      cases hfb
    rw [hget, if_neg hf]
    exact h.others hmoves hf hfb

/-- **An engine that watches a run decides by the history.** While it runs and nothing is parked, its
other conditions are met. -/
theorem stopsAfter (h : Tracks past e m) (hs : e.status = .running) (hp : e.parked = [])
    (ha : m.frame? current = some a) :
    Visit.StopsAfter ⟨e, Machine.siteOf current a i⟩ past := by
  have hbarred : e.isBarred (Machine.siteOf current a i) = true ↔
      Lingers past current a.location := by
    -- a barrier matters only on the line where the frame stands
    have hdef : e.isBarred (Machine.siteOf current a i) = true ↔
        e.barriers.get? current = some a.location := decide_eq_true_iff
    rw [hdef]
    constructor
    · exact h.sound current a.location
    · intro hlingers
      rcases h.complete current a ha with hbar | hall
      · exact hbar
      · exact hall a.location hlingers
  -- the conditions on the status and on the parked frames drop out
  have hsuspend : e.shouldSuspend (Machine.siteOf current a i) = true ↔
      e.wantsStop (Machine.siteOf current a i) = true ∧ i.code ∉ e.config.excludedOpcodes ∧
        ¬e.isBarred (Machine.siteOf current a i) = true := by
    unfold Engine.shouldSuspend
    simp only [hs, hp, Machine.siteOf]
    simp
    tauto
  unfold Visit.StopsAfter
  rw [Visit.held_iff, Visit.wanted_iff, hsuspend, hbarred]
  rfl

end Tracks

end BytecodeDebugger
