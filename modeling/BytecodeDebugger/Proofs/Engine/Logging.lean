import BytecodeDebugger.Engine.Report

/-!
# What the error log gains

An error gets a record when it is made and is logged when it escapes. In a log that is *sound* the
record of an error made just now is not logged yet, so that the escape of an error adds exactly one
line to the log, with the message of the error; the message of a failure of the host is the wrapped
one.

Main statements:

* `ErrorLog.Sound.logs` — logging the error made last adds its message to the log;
* `errors_fail_indexed`, `errors_fail_host` — dealing with an error that escaped is logging it.
-/

namespace BytecodeDebugger

namespace ErrorLog

/-- **A sound log**: records are numbered from zero on, and what is logged has a record. -/
structure Sound (l : ErrorLog) : Prop where
  numbered : ∀ (i : Nat) (r : ErrorRecord), l.records[i]? = some r → r.index = i
  logged : ∀ r ∈ l.log, r.index < l.records.size

/-- The messages that are logged, in order. -/
def messages (l : ErrorLog) : List String := l.log.toList.map (·.message)

namespace Sound

variable {l : ErrorLog}

theorem empty : Sound {} := ⟨by simp, by simp⟩

/-- Making an error makes its record. -/
theorem create (h : l.Sound) (message : String) (position : Option SourceLocation) :
    (l.create message position).2.Sound := by
  constructor
  · intro i r hr
    simp only [ErrorLog.create, Array.getElem?_push] at hr
    split at hr
    · next hi =>
      cases hr
      -- the new record has the number of its place
      exact hi.symm
    · exact h.numbered i r hr
  · intro r hr
    have hlt := h.logged r hr
    simp only [ErrorLog.create, Array.size_push]
    exact Nat.lt_succ_of_lt hlt

/-- The record made last is not logged. -/
theorem not_logged (h : l.Sound) (message : String) (position : Option SourceLocation) :
    (l.create message position).2.logged l.records.size = false := by
  unfold ErrorLog.logged
  rw [Array.any_eq_false]
  intro i hi
  -- what is logged has a smaller number than the record to come
  have hlt := h.logged _ (Array.getElem_mem hi)
  simpa using Nat.ne_of_lt hlt

/-- **Logging the error made last** adds its message. -/
theorem logs (h : l.Sound) (message : String) (position : Option SourceLocation) :
    ((l.create message position).2.correlate l.records.size).2.Sound ∧
      ((l.create message position).2.correlate l.records.size).2.messages =
        l.messages ++ [message] := by
  have hsound := h.create message position
  have hfresh := h.not_logged message position
  have hrecord : (l.create message position).2.records[l.records.size]? =
      some ⟨l.records.size, position.map (·.url), position.map (·.line), message⟩ := by
    simp [ErrorLog.create]
  unfold correlate
  rw [hrecord]
  dsimp only
  -- it was not logged before, so that it is logged now
  rw [if_neg (by rw [hfresh]; simp)]
  constructor
  · refine ⟨hsound.numbered, fun r hr => ?_⟩
    rcases Array.mem_push.mp hr with hr | rfl
    · exact hsound.logged r hr
    · simp [ErrorLog.create]
  · simp [messages, ErrorLog.create]

end Sound

end ErrorLog

namespace Engine

/-- Reporting an error that has an index is logging the index. -/
theorem errors_reportUncaught {e : Engine} {error : RuntimeError} {n : ErrorIndex}
    (h : error.index = some n) :
    (e.reportUncaught error).2.errors = (e.errors.correlate n).2 := by
  unfold reportUncaught
  rw [h]
  dsimp only
  unfold announce
  cases hc : e.errors.correlate n with
  | mk record errors =>
    cases record <;> rfl

/-- Adding the frame that an error came from leaves its index alone. -/
theorem index_origin (error : RuntimeError) (origin : Option StackEntry) :
    (match origin with
      | some entry => if error.stack.isEmpty then error.tag entry else error
      | none => error).index = error.index := by
  cases origin with
  | none => rfl
  | some entry =>
    dsimp only
    unfold RuntimeError.tag
    split
    · split <;> rfl
    · rfl

/-- **An error of the program that has a record is logged** when it escapes. -/
theorem errors_fail_indexed {e : Engine} {message : String} {passed : List StackEntry}
    {n : ErrorIndex} (hn : e.errors.knows n = true) (origin : Option StackEntry) :
    (e.fail (.runtime ⟨message, passed, some n⟩) origin).2.errors = (e.errors.correlate n).2 := by
  -- the record is there, and no other is made
  have hadopt : e.errors.adopt ⟨message, passed, some n⟩ e.lastExecuted =
      (⟨message, passed, some n⟩, e.errors) := by
    unfold ErrorLog.adopt
    exact if_pos hn
  unfold fail normalize
  dsimp only
  rw [hadopt]
  exact errors_reportUncaught (index_origin _ origin)

/-- **A failure of the host gets a record and is logged** when it escapes. -/
theorem errors_fail_host (e : Engine) (failure : HostError) (origin : Option StackEntry) :
    (e.fail (.host failure) origin).2.errors =
      ((e.errors.create (ErrorLog.hostMessage failure) e.lastExecuted).2.correlate
        e.errors.records.size).2 :=
  errors_reportUncaught (index_origin _ origin)

end Engine

end BytecodeDebugger
