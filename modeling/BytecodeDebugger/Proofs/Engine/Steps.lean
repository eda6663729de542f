import BytecodeDebugger.Proofs.Engine.Works

/-!
# An engine that steps

Between two commands a step is carried out by the engine's answers alone: they keep stepping switched
on (`Engine.Steps`), and take its target away only when the target reports an instruction that ends
the step (`Engine.target_instructionDone`). Without a target every instruction stops that admits a
stop, if its frame has no barrier (`Engine.shouldSuspend_of_aimless`).
-/

namespace BytecodeDebugger

/-- **An engine that steps**, though not by itself, with the opcode lists of the default
configuration. -/
structure Engine.Steps (e : Engine) : Prop where
  on : e.stepping.on = true
  manual : e.stepping.auto = false
  excluded : e.config.excludedOpcodes = ({} : Config).excludedOpcodes
  clearing : e.config.stepClearingOpcodes = ({} : Config).stepClearingOpcodes

namespace Engine

variable {e e' : Engine}

theorem Steps.of_eq (h : e.Steps) (hon : e'.stepping.on = e.stepping.on)
    (hauto : e'.stepping.auto = e.stepping.auto) (hconfig : e'.config = e.config) : e'.Steps :=
  ⟨hon.trans h.on, hauto.trans h.manual, by rw [hconfig]; exact h.excluded,
    by rw [hconfig]; exact h.clearing⟩

theorem Steps.transition (h : e.Steps) (next : Status) (payload : Payload) :
    (e.transition next payload).Steps := by
  obtain ⟨_, _, _, _, heq⟩ := e.transition_eq next payload
  rw [heq]
  exact h.of_eq rfl rfl rfl

/-- Whether a step is over concerns its target only. -/
theorem Steps.instructionDone (h : e.Steps) (frame : FrameId) (code : UInt8) :
    (e.instructionDone frame code).Steps := by
  have hstepping : (e.instructionDone frame code).stepping.on = e.stepping.on ∧
      (e.instructionDone frame code).stepping.auto = e.stepping.auto := by
    unfold Engine.instructionDone Stepping.clearTarget Stepping.dropTarget
    dsimp only
    split
    · split <;> exact ⟨rfl, rfl⟩
    · exact ⟨rfl, rfl⟩
  exact h.of_eq hstepping.1 hstepping.2 rfl

/-- No answer ends the stepping. -/
theorem Steps.reply (call : HookCall) (h : e.Steps) : (Engine.reply call e).2.Steps := by
  cases call with
  | before site =>
    unfold Engine.reply
    dsimp only
    split
    · have hparked : ({ e.park (.call site.frame) with
          barriers := e.barriers.insert site.frame (locationOf site)
          epoch := e.epoch + 1 } : Engine).Steps := h.of_eq rfl rfl rfl
      exact (hparked.transition .suspending _).of_eq rfl rfl rfl
    · exact h.of_eq rfl rfl rfl
  | after frame pc opcode failure =>
    cases failure with
    | none => exact h.instructionDone frame opcode
    | some error => exact h
  | park entry => exact h.of_eq rfl rfl rfl
  | takeResume =>
    change e.takeResume.2.Steps
    unfold takeResume
    split
    · split
      · exact h
      · next entry inner _ =>
        have hinner : ({ e with parked := inner } : Engine).Steps := h.of_eq rfl rfl rfl
        dsimp only
        split
        · exact hinner.transition .running {}
        · exact hinner
    · exact h
  | isResuming => exact h
  | raise message => exact h.of_eq rfl rfl rfl

/-- **The target of a step** is forgotten when it runs an instruction that ends steps. -/
theorem target_instructionDone (e : Engine) (frame : FrameId) (code : UInt8) :
    (e.instructionDone frame code).stepping.target =
      if e.stepping.target = some (.call frame) ∧ code ∈ e.config.stepClearingOpcodes then none
      else e.stepping.target := by
  unfold Engine.instructionDone Stepping.clearTarget Stepping.dropTarget
  simp only [List.contains_iff_mem]
  by_cases hcode : code ∈ e.config.stepClearingOpcodes
  · by_cases htarget : e.stepping.target = some (.call frame)
    · rw [if_pos hcode, if_pos htarget, if_pos ⟨htarget, hcode⟩]
    · rw [if_pos hcode, if_neg htarget, if_neg fun hc => htarget hc.1]
  · rw [if_neg hcode, if_neg fun hc => hcode hc.2]

/-- With the default lists it is forgotten when it returns or runs a `CLOSE`. -/
theorem Steps.target_instructionDone (h : e.Steps) (frame : FrameId) (code : UInt8) :
    (e.instructionDone frame code).stepping.target =
      if e.stepping.target = some (.call frame) ∧ (code = Op.returnCode ∨ code = Op.closeCode) then none
      else e.stepping.target := by
  rw [Engine.target_instructionDone, h.clearing]
  simp

/-- **Stepping without a target** holds up every instruction that admits a stop, unless its frame has
a barrier. -/
theorem shouldSuspend_of_aimless (hs : e.status = .running) (hp : e.parked = [])
    (hon : e.stepping.on = true) (htarget : e.stepping.target = none) {site : Site}
    (hbarrier : e.barriers.get? site.frame = none) (hcoroutine : site.coroutineResuming = false) :
    e.shouldSuspend site = true ↔ site.opcode ∉ e.config.excludedOpcodes := by
  -- without a target every frame is stepped through
  have hwants : e.wantsStop site = true := by
    unfold Engine.wantsStop Stepping.breaksIn
    rw [hon, htarget]
    rfl
  have hbarred : e.isBarred site = false := by
    unfold Engine.isBarred
    rw [hbarrier]
    rfl
  unfold Engine.shouldSuspend
  rw [hwants, hs, hp, hbarred, hcoroutine]
  simp

/-- With the default lists it passes over a `CLOSE` or the declaration of a closure. -/
theorem Steps.passes (h : e.Steps) (hs : e.status = .running) (hp : e.parked = [])
    (htarget : e.stepping.target = none) {site : Site} (hbarrier : e.barriers.get? site.frame = none)
    (hcoroutine : site.coroutineResuming = false) (hpasses : e.shouldSuspend site = false) :
    site.opcode = Op.closeCode ∨ site.opcode = Op.closureCode := by
  have hsuspend := shouldSuspend_of_aimless hs hp h.on htarget hbarrier hcoroutine
  -- what is passed by while stepping in can only be one of the opcodes left out
  have hexcluded : site.opcode ∈ e.config.excludedOpcodes := by
    refine Decidable.not_not.mp fun hadmits => ?_
    rw [hsuspend.mpr hadmits] at hpasses
    cases hpasses
  rw [h.excluded] at hexcluded
  simpa using hexcluded

end Engine

end BytecodeDebugger
