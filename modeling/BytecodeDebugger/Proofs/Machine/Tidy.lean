import BytecodeDebugger.Proofs.Machine.Confinement
import BytecodeDebugger.Proofs.Machine.Turnwise

/-!
# Frames that the engine remembers

The engine remembers frames in two places, as the target of a step and in its barriers. A frame that
is gone must not be remembered: a target that cannot be reached any more would stop the program
nowhere, and no later pause would help. This file shows that the engine is *tidy*: every frame that it
remembers is in progress or parked (`Engine.Tidy`). Frames end in a return or behind their last
instruction, and either is reported as a return, which takes the frame out of both places as long as a
return is among the opcodes that end steps.

It follows what a pause does. A tidy engine remembers nothing when no frame is left. If it steps then,
it is *alert* (`Engine.Alert`): it holds up every instruction that admits a stop, and if calls admit
one, a run does not get out of its first frame before.

Main statements:

* `tidyWise` — a run keeps the engine tidy, turn by turn;
* `alertWise` — a run under an alert engine is held up in its first frame, by the first instruction
  that admits it.
-/

namespace BytecodeDebugger

/-- There is one code for a call. -/
theorem Op.eq_callCode {code : UInt8} (h : Op.ofCode code = .call) : code = Op.callCode := by
  unfold Op.ofCode at h
  split at h <;> cases h
  next hcode => exact UInt8.toNat_inj.mp hcode

namespace Engine

variable {e e' : Engine} {stack stack' : List FrameId} {current : FrameId} {callers : List FrameId}

/-! ### The end of an instruction -/

/-- An instruction that ran ends the step or leaves it alone. -/
theorem target_cases (e : Engine) (frame : FrameId) (code : UInt8) :
    (e.instructionDone frame code).stepping.target = none ∨
      (e.instructionDone frame code).stepping.target = e.stepping.target := by
  rw [target_instructionDone]
  split
  · exact .inl rfl
  · exact .inr rfl

/-- A return ends the step that aims at its frame. -/
theorem target_returned (h : Op.returnCode ∈ e.config.stepClearingOpcodes) (frame : FrameId) :
    (e.instructionDone frame Op.returnCode).stepping.target ≠ some (.call frame) := by
  rw [target_instructionDone]
  by_cases htarget : e.stepping.target = some (.call frame)
  · rw [if_pos ⟨htarget, h⟩]
    simp
  · rw [if_neg fun hc => htarget hc.1]
    exact htarget

/-- Whether the program is stepped is a matter of commands. -/
theorem on_instructionDone (e : Engine) (frame : FrameId) (code : UInt8) :
    (e.instructionDone frame code).stepping.on = e.stepping.on := by
  unfold instructionDone Stepping.clearTarget
  dsimp only
  split
  · split <;> rfl
  · rfl

/-! ### Tidy engines -/

/-- **A tidy engine**: the frames that it remembers are on the stack, or parked. -/
structure Tidy (e : Engine) (stack : List FrameId) : Prop where
  /-- a return ends steps -/
  clears : Op.returnCode ∈ e.config.stepClearingOpcodes
  target : ∀ entry, e.stepping.target = some entry →
    ∃ f, entry = .call f ∧ (f ∈ stack ∨ .call f ∈ e.parked)
  barriers : ∀ f, e.barriers.get? f ≠ none → f ∈ stack ∨ .call f ∈ e.parked

namespace Tidy

/-- Remembering less, of more frames. -/
theorem of_less (h : e.Tidy stack) (hconfig : e'.config = e.config)
    (htarget : e'.stepping.target = none ∨ e'.stepping.target = e.stepping.target)
    (hbarriers : ∀ f, e.barriers.get? f = none → e'.barriers.get? f = none)
    (hframes : ∀ f, f ∈ stack ∨ .call f ∈ e.parked → f ∈ stack' ∨ .call f ∈ e'.parked) :
    e'.Tidy stack' where
  clears := by
    rw [hconfig]
    exact h.clears
  target entry hentry := by
    rcases htarget with hnone | hsame
    · rw [hnone] at hentry
      cases hentry
    · obtain ⟨f, rfl, hf⟩ := h.target entry (hsame.symm.trans hentry)
      exact ⟨f, rfl, hframes f hf⟩
  barriers f hf := hframes f (h.barriers f fun hnone => hf (hbarriers f hnone))

/-- What does not concern the frames. -/
theorem of_eq (h : e.Tidy stack) (hconfig : e'.config = e.config)
    (htarget : e'.stepping.target = e.stepping.target) (hbarriers : e'.barriers = e.barriers)
    (hparked : e'.parked = e.parked) : e'.Tidy stack := by
  refine h.of_less hconfig (.inr htarget) (fun f hf => ?_) fun f hf => ?_
  · rw [hbarriers]
    exact hf
  · rw [hparked]
    exact hf

/-- An engine that remembers nothing is tidy. -/
theorem of_forgotten (hclears : Op.returnCode ∈ e.config.stepClearingOpcodes)
    (htarget : e.stepping.target = none) (hbarriers : e.barriers = .empty) : e.Tidy stack where
  clears := hclears
  target entry hentry := by
    rw [htarget] at hentry
    cases hentry
  barriers f hf := by
    rw [hbarriers] at hf
    exact absurd (SortedMap.get?_empty f) hf

/-- **With no frame left nothing is remembered.** -/
theorem forgotten (h : e.Tidy []) (hp : e.parked = []) :
    e.stepping.target = none ∧ ∀ f, e.barriers.get? f = none := by
  constructor
  · -- a target or a barrier is of a frame in use, and none is
    cases htarget : e.stepping.target with
    | none => rfl
    | some entry =>
      obtain ⟨f, -, hf⟩ := h.target entry htarget
      rw [hp] at hf
      simp at hf
  · intro f
    cases hbarrier : e.barriers.get? f with
    | none => rfl
    | some l =>
      have hf := h.barriers f (by rw [hbarrier]; simp)
      rw [hp] at hf
      simp at hf

/-- A new frame is not remembered yet. -/
theorem entered (h : e.Tidy stack) (f : FrameId) : e.Tidy (f :: stack) :=
  h.of_less rfl (.inr rfl) (fun _ hf => hf) fun _ hf => hf.imp_left (List.mem_cons_of_mem f)

/-- **An instruction that ran** adds nothing. -/
theorem passed (h : e.Tidy stack) (a : Activation) (i : Instruction) :
    ((e.passBy (Machine.siteOf current a i)).instructionDone current i.code).Tidy stack :=
  h.of_less rfl (target_cases _ current i.code) (Machine.barriers_passed e a i) fun _ hf => hf

/-- **A frame that returned is forgotten.** -/
theorem without_current (h : e.Tidy (current :: callers))
    (htarget : e.stepping.target ≠ some (.call current)) (hbarrier : e.barriers.get? current = none) :
    e.Tidy callers where
  clears := h.clears
  target entry hentry := by
    obtain ⟨f, rfl, hf⟩ := h.target entry hentry
    have hother : f ≠ current := by
      rintro rfl
      exact htarget hentry
    exact ⟨f, rfl, hf.imp_left fun hmem => (List.mem_cons.mp hmem).resolve_left hother⟩
  barriers f hf := by
    have hother : f ≠ current := by
      rintro rfl
      exact hf hbarrier
    exact (h.barriers f hf).imp_left fun hmem => (List.mem_cons.mp hmem).resolve_left hother

theorem returned (h : e.Tidy (current :: callers)) :
    (e.instructionDone current Op.returnCode).Tidy callers := by
  refine without_current ?_ (target_returned h.clears current) ?_
  · exact h.of_less rfl (target_cases e current _) (Machine.barriers_left e) fun _ hf => hf
  · change (e.barriers.erase current).get? current = none
    rw [SortedMap.get?_erase, if_pos rfl]

/-- **A frame that is held up is parked with its callers**, and gets a barrier. -/
theorem hold {site : Site} (hs : e.status = .running) (hp : e.parked = [])
    (h : e.Tidy (site.frame :: callers)) : (e.hold site callers).Tidy [] := by
  -- the frames in use are now the parked ones
  have hparked : ∀ f, f ∈ site.frame :: callers ∨ Resumable.call f ∈ e.parked →
      Resumable.call f ∈ ((site.frame :: callers).map Resumable.call).reverse := by
    intro f hf
    rw [hp] at hf
    exact List.mem_reverse.mpr (List.mem_map_of_mem (hf.resolve_right List.not_mem_nil))
  rw [hold_eq hs hp]
  refine ⟨h.clears, fun entry hentry => ?_, fun f hf => .inr (hparked f ?_)⟩
  · obtain ⟨f, rfl, hf⟩ := h.target entry hentry
    exact ⟨f, rfl, .inr (hparked f hf)⟩
  · dsimp only at hf
    rw [SortedMap.get?_insert] at hf
    split at hf
    · next hcurrent => exact .inl (hcurrent ▸ List.mem_cons_self)
    · exact h.barriers f hf

end Tidy

/-! ### Alert engines -/

/-- **An alert engine** steps while nothing is parked, without a target and without barriers. The
opcodes that never stop are `codes`. -/
structure Alert (e : Engine) (codes : List UInt8) : Prop where
  running : e.status = .running
  parked : e.parked = []
  on : e.stepping.on = true
  aimless : e.stepping.target = none
  unbarred : ∀ f, e.barriers.get? f = none
  excluded : e.config.excludedOpcodes = codes

namespace Alert

variable {codes : List UInt8}

/-- **A tidy engine that steps while nothing is parked is alert.** -/
theorem of_tidy (h : e.Tidy []) (hs : e.status = .running) (hp : e.parked = [])
    (hon : e.stepping.on = true) : e.Alert e.config.excludedOpcodes :=
  ⟨hs, hp, hon, (h.forgotten hp).1, (h.forgotten hp).2, rfl⟩

theorem of_eq (h : e.Alert codes) (hs : e'.status = e.status) (hp : e'.parked = e.parked)
    (hon : e'.stepping.on = e.stepping.on) (ht : e'.stepping.target = e.stepping.target)
    (hb : e'.barriers = e.barriers) (hc : e'.config = e.config) : e'.Alert codes where
  running := hs.trans h.running
  parked := hp.trans h.parked
  on := hon.trans h.on
  aimless := ht.trans h.aimless
  unbarred f := (congrArg (·.get? f) hb).trans (h.unbarred f)
  excluded := (congrArg Config.excludedOpcodes hc).trans h.excluded

/-- **An alert engine holds up whatever admits it.** -/
theorem held_iff (h : e.Alert codes) {site : Site} (hcoroutine : site.coroutineResuming = false) :
    Visit.Held ⟨e, site⟩ ↔ site.opcode ∉ codes := by
  rw [Visit.held_iff, ← h.excluded]
  exact shouldSuspend_of_aimless h.running h.parked h.on h.aimless (h.unbarred site.frame) hcoroutine

/-- An engine that lets an instruction pass stays alert. -/
theorem passed (h : e.Alert codes) (a : Activation) (i : Instruction) :
    ((e.passBy (Machine.siteOf current a i)).instructionDone current i.code).Alert codes where
  running := h.running
  parked := h.parked
  on := (on_instructionDone _ current i.code).trans h.on
  aimless := (target_cases _ current i.code).elim id fun hsame => hsame.trans h.aimless
  unbarred f := Machine.barriers_passed e a i f (h.unbarred f)
  excluded := h.excluded

theorem left (h : e.Alert codes) : (e.instructionDone current Op.returnCode).Alert codes where
  running := h.running
  parked := h.parked
  on := (on_instructionDone e current _).trans h.on
  aimless := (target_cases e current _).elim id fun hsame => hsame.trans h.aimless
  unbarred f := Machine.barriers_left e f (h.unbarred f)
  excluded := h.excluded

end Alert

end Engine

namespace Machine

/-- **A run keeps the engine tidy.** -/
theorem tidyWise : Turnwise Engine.Tidy (fun _ => True) fun e => e.Tidy [] where
  visit _ _ _ _ := trivial
  held hs hp hj := hj.hold hs hp
  passed := by
    intro m e a i current callers stack hs hp hj hpasses hstack
    cases hstack with
    | stays => exact hj.passed a i
    | enters => exact (hj.passed a i).entered _
    | leaves returns =>
      -- the frame that leaves takes its target and its barrier with it
      refine (hj.passed a i).without_current ?_ ?_
      · rw [returns]
        exact Engine.target_returned hj.clears current
      · rw [Tracks.barrier_passed, if_neg fun hc => hc.1 returns]
  left hj := hj.returned

section Alert

variable (codes : List UInt8) (frame : FrameId)

/-- Only this frame is in progress, under an alert engine. -/
def FirstFrame (e : Engine) (stack : List FrameId) : Prop :=
  e.Alert codes ∧ (stack = [] ∨ stack = [frame])

/-- A visit of this frame, which is held up if its opcode admits it. -/
def FirstVisit (v : Visit) : Prop := v.site.frame = frame ∧ (v.Held ↔ v.site.opcode ∉ codes)

/-- **A run under an alert engine is held up in its first frame**, by the first instruction that admits
it. A call admits it, so that no other frame comes into progress. -/
theorem alertWise (hcall : Op.callCode ∉ codes) :
    Turnwise (FirstFrame codes frame) (FirstVisit codes frame)
      fun e => e.resumeStack = [.call frame] where
  visit := by
    rintro e site callers - - ⟨halert, hstack⟩ hcoroutine
    refine ⟨?_, halert.held_iff hcoroutine⟩
    rcases hstack with hstack | hstack
    · cases hstack
    · exact (List.cons.inj hstack).1
  held := by
    rintro e site callers hs hp ⟨-, hstack⟩
    rw [Engine.hold_eq hs hp]
    rcases hstack with hstack | hstack
    · cases hstack
    · unfold Engine.resumeStack
      rw [hstack]
      rfl
  passed := by
    rintro m e a i current callers stack - - ⟨halert, hframe⟩ hpasses hstack
    -- nothing has passed but the first frame, which is still the only one
    obtain ⟨rfl, rfl⟩ : current = frame ∧ callers = [] := by
      rcases hframe with hframe | hframe
      · cases hframe
      · exact List.cons.inj hframe
    refine ⟨halert.passed a i, ?_⟩
    cases hstack with
    | stays => exact .inr rfl
    | leaves => exact .inl rfl
    | enters call =>
      -- a call would have been held up
      have hheld : Visit.Held ⟨e, siteOf current a i⟩ := by
        rw [halert.held_iff rfl]
        change i.code ∉ codes
        rw [Op.eq_callCode call]
        exact hcall
      rw [Visit.held_iff, hpasses] at hheld
      cases hheld
  left := by
    rintro e current callers ⟨halert, hframe⟩
    refine ⟨halert.left, .inl ?_⟩
    rcases hframe with hframe | hframe
    · cases hframe
    · exact (List.cons.inj hframe).2

end Alert

end Machine

end BytecodeDebugger
