import BytecodeDebugger.Proofs.Session.Entrances
import BytecodeDebugger.Proofs.Session.Faults

/-!
# Where errors point

The record of an error points at the line that was executed last. All frames share that line, and it
is read at different times: as soon as an error of the program is made, but only after the end of the
run if a host function failed. It is still the line of the instruction that failed, since each
instruction is noted right before it runs and nothing is noted between its failure and the end of the
run (`Machine.Failure.run_tail_reply`).

An error that ends an entrance escapes (`Session.Enters.escapes`), so that its record is the next
line of the log.

Main statement: `Session.records_point_at_failures`.
-/

namespace BytecodeDebugger

/-- The message in the record of a mishap. -/
def Mishap.message : Mishap → String
  | .fault message => message
  | .host error => ErrorLog.hostMessage error
  | .overflow _ => "stack overflow"

/-! ### Errors that are not logged yet -/

namespace Engine

variable {e : Engine}

/-- **The error will add this record to the log** when it escapes. -/
def Logs (e : Engine) (error : ExecError) (record : ErrorRecord) : Prop :=
  ∀ origin, (e.fail error origin).1.index = some record.index ∧
    (Fault.escaped e error origin).line? = some record

/-- The log after the error escaped. -/
theorem Logs.log_fail {error : ExecError} {record : ErrorRecord} (h : e.Logs error record)
    (origin : Option StackEntry) :
    (e.fail error origin).2.errors.log = e.errors.log.push record := by
  have hlog := (Fault.adds_escaped e error origin).log
  rw [(h origin).2] at hlog
  exact Array.toList_inj.mp (hlog.trans Array.toList_push.symm)

/-- A correlated log is sound. -/
theorem Correlated.sound (h : e.Correlated) : e.errors.Sound where
  numbered := h.numbered
  logged r hr := by
    obtain ⟨hlt, -⟩ := Array.getElem?_eq_some_iff.mp (h.recorded r hr)
    exact hlt

/-- **A failure of the host** gets its record when it escapes. -/
theorem Correlated.logs_host (h : e.Correlated) (failure : HostError) :
    e.Logs (.host failure) (e.recordOf (ErrorLog.hostMessage failure)) := by
  intro origin
  obtain ⟨i, record, hindex, rfl, -, hmade, hline⟩ := Fault.line_escaped h (.host failure) origin
  obtain rfl : e.recordOf (ErrorLog.hostMessage failure) = record := hmade _ rfl
  have hfresh : e.errors.logged (e.recordOf (ErrorLog.hostMessage failure)).index = false :=
    h.sound.not_logged (ErrorLog.hostMessage failure) e.lastExecuted
  refine ⟨hindex, hline.trans (if_neg ?_)⟩
  rw [hfresh]
  exact Bool.false_ne_true

/-- **An error of the program** got its record when it was made. -/
theorem Correlated.logs_raised (h : e.Correlated) (message : String) (passed : List StackEntry) :
    (e.raise message).2.Logs (.runtime ⟨message, passed, some e.errors.records.size⟩)
      (e.recordOf message) := by
  intro origin
  have hraised : (e.raise message).2.Correlated := h.creates message
  have hmade : (e.raise message).2.errors.records[e.errors.records.size]? =
      some (e.recordOf message) := Array.getElem?_push_size
  -- the record is new, and so it is not in the log yet
  have hfresh : (e.raise message).2.errors.logged e.errors.records.size = false :=
    h.sound.not_logged message e.lastExecuted
  have hknown : (e.raise message).2.errors.knows e.errors.records.size = true := by
    obtain ⟨hlt, -⟩ := Array.getElem?_eq_some_iff.mp hmade
    exact decide_eq_true hlt
  obtain ⟨i, record, hindex, rfl, hrecord, -, hline⟩ := Fault.line_escaped hraised
    (.runtime ⟨message, passed, some e.errors.records.size⟩) origin
  -- the error keeps its index, since it is known, and the record of this index never changes
  have hkeeps : record.index = e.errors.records.size := by
    have hi := hindex.symm.trans (Fault.index_fail _ _ origin)
    rw [ErrorLog.indexOf?, Option.filter_some_pos hknown] at hi
    exact Option.some.inj hi
  have hextends := (Fault.escaped (e.raise message).2
    (.runtime ⟨message, passed, some e.errors.records.size⟩) origin).evolves_after.extends
  rw [hkeeps] at hrecord hline
  obtain rfl : record = e.recordOf message :=
    Option.some.inj (hrecord.symm.trans (hextends.record hmade))
  refine ⟨hindex, hline.trans (if_neg ?_)⟩
  rw [hfresh]
  exact Bool.false_ne_true

/-- An instruction that may run is noted. -/
theorem reply_before_proceeds {site : Site}
    (h : (Engine.reply (.before site) e).1 = Decision.proceed) :
    (Engine.reply (.before site) e).2 = e.passBy site := by
  unfold Engine.reply at h ⊢
  dsimp only at h ⊢
  split at h
  · cases h
  · next hstop => rw [if_neg hstop]

end Engine

/-! ### Failures and their records -/

namespace Machine

/-- **The record points at the failure**: at the line of the instruction in the file of its
function. -/
structure Failure.Recorded (x : Failure) (record : ErrorRecord) : Prop where
  file : record.file = some x.activation.closure.file
  line : record.line = some (x.activation.closure.proto.lineAt x.activation.pc)
  message : record.message = x.mishap.message

/-- **What a failed turn logs** is the record of an error that is made now, whenever it is made. -/
theorem Failure.run_tail_reply {x : Failure} {e : Engine} (h : e.Correlated)
    (hchain : ∀ own, x.mishap.passed? = some own →
      (x.frame :: x.callers).IsChain fun callee caller => x.machine.Waits caller callee) :
    ∃ error final e', x.tail.run Engine.reply e = .ok (.finish (.error error) final, e') ∧
      e'.Logs error (e.recordOf x.mishap.message) := by
  obtain ⟨frame, callers, a, i, mishap, m⟩ := x
  cases mishap with
  | fault message =>
    obtain ⟨waits, final, hrun, -, -⟩ := run_failTurn_of_chain Engine.reply
      (hchain _ rfl) (.runtime ((e.raise message).1.tag ⟨frame, a.pc⟩)) (e.raise message).2
    exact ⟨_, final, _, hrun, h.logs_raised message _⟩
  | host error =>
    -- the record is made later, but the rest of the turn asks nothing
    obtain ⟨waits, final, hrun, -, -⟩ := run_failTurn_of_chain Engine.reply
      (hchain _ rfl) (.host { error with stack := error.stack ++ [⟨frame, a.pc⟩] }) e
    exact ⟨_, final, e, hrun, h.logs_host _⟩
  | overflow entered =>
    -- the report of the call that was entered touches neither the errors nor the line
    have hdone : (e.instructionDone frame i.code).Correlated := h.of_same ⟨rfl, rfl⟩
    exact ⟨_, _, _, rfl, hdone.logs_raised "stack overflow" []⟩

/-- **A failure that comes next is recorded where it is.** -/
theorem Moment.Fails.recorded {p : Moment Engine} {x : Failure} (h : p.Fails Engine.reply x)
    {ground : SortedMap FrameId Activation} (hruns : p.machine.Runs ground p.stack)
    (hc : p.state.Correlated) :
    ∃ error final e' record, p.rest Engine.reply = .ok ((.error error, final), e') ∧
      e'.Logs error record ∧ x.Recorded record := by
  obtain ⟨budget, -, hraises⟩ := h.raises
  rw [h.stack] at hruns
  -- whatever frame ran before, the line is that of the instruction that is let run now
  have hnoted : (Engine.reply (.before x.site) p.state).2 = p.state.passBy x.site :=
    Engine.reply_before_proceeds h.proceeds
  have hpassed : (p.state.passBy x.site).Correlated := hc.of_same ⟨rfl, rfl⟩
  obtain ⟨error, final, e', htail, hlogs⟩ := Failure.run_tail_reply (x := x) hpassed
    fun own hown => (hraises.runs (innerKeeps_call budget) hruns h.frame hown).chain
  exact ⟨error, final, e', _, h.rest_eq (hnoted ▸ htail), hlogs, rfl, rfl, rfl⟩

end Machine

/-! ### What ends an entrance escapes -/

namespace Session

variable {σ : Type} {I : Interpreter σ} {s s' s'' : Session σ} {x : Entrance σ} {error : ExecError}
  {record : ErrorRecord}

theorem escapes_entry {way : Way} (h : (Entrance.mk s way).outcome I = .ok (.error error, s'))
    (origin : Option StackEntry) :
    .escaped s'.engine error origin ∈ s.entryFaults (way.enter I) origin := by
  have hattend : s.attend (way.enter I) = .ok (.error error, s') := h
  unfold entryFaults
  rw [hattend]
  exact List.mem_append_right _ (List.mem_singleton_self _)

theorem Drains.escapes {calls : List DeferredCall} (hx : Drains I s calls x)
    (h : x.outcome I = .ok (.error error, s')) :
    .escaped s'.engine error none ∈ s.drainFaults I calls := by
  -- the calls in front of the one that fails have outcomes, and the faults go on behind them
  induction hx with
  | next running =>
    unfold drainFaults
    rw [if_pos running]
    exact List.mem_append_left _ (escapes_entry h none)
  | later running made _ ih =>
    unfold drainFaults
    rw [if_pos running, made]
    exact List.mem_append_right _ (ih h)

theorem Resumes.escapes (hx : s.Resumes I x) (h : x.outcome I = .ok (.error error, s')) :
    ∃ origin, .escaped s'.engine error origin ∈ s.resumeFaults I := by
  unfold resumeFaults
  cases hx with
  | again popped =>
    unfold reenterFaults
    rw [popped]
    exact ⟨_, List.mem_append_left _ (escapes_entry h _)⟩
  | drains reentered rest =>
    rw [reentered]
    exact ⟨none, List.mem_append_right _ (rest.escapes h)⟩

theorem Polls.escapes {now : Time} {budget : Nat} (hx : Polls I now budget s x)
    (h : x.outcome I = .ok (.error error, s')) :
    ∃ origin, .escaped s'.engine error origin ∈ pollFaults I now budget s := by
  -- over the tasks in front of the one whose step fails
  induction hx with
  | @steps s budget generation timers x due valid resumes =>
    obtain ⟨origin, hmem⟩ := resumes.escapes h
    have htask : (s.setEngine { s.engine with timers }).taskFaults I (.autoStep generation) =
        ((s.setEngine { s.engine with timers }).command Stepping.stepIn).resumeFaults I :=
      if_pos valid
    unfold pollFaults
    rw [due]
    exact ⟨origin, List.mem_append_left _ (htask ▸ hmem)⟩
  | later due ran _ ih =>
    obtain ⟨origin, hmem⟩ := ih h
    unfold pollFaults
    rw [due]
    dsimp only
    rw [ran]
    exact ⟨origin, List.mem_append_right _ hmem⟩

/-- **An error that ends an entrance escapes.** -/
theorem Enters.escapes {op : Operation} (hx : s.Enters I op x)
    (h : x.outcome I = .ok (.error error, s')) :
    ∃ origin, .escaped s'.engine error origin ∈ s.operationFaults I op := by
  cases hx with
  | submit running =>
    unfold operationFaults
    dsimp only
    rw [if_pos running]
    exact ⟨none, escapes_entry h none⟩
  | goesOn commanded resumes =>
    obtain ⟨origin, hmem⟩ := resumes.escapes h
    refine ⟨origin, ?_⟩
    cases op with
    | stepIn | stepOver | resume =>
      -- the command is given first, and faults are those of the resumption behind it
      cases commanded
      exact hmem
    | stepOut =>
      unfold commanded? at commanded
      unfold operationFaults
      dsimp only at commanded ⊢
      cases hcaller : s.engine.enclosingCall? with
      | some caller | none =>
        rw [hcaller] at commanded
        cases commanded
        exact hmem
    | autoStep =>
      unfold commanded? at commanded
      unfold operationFaults
      dsimp only at commanded ⊢
      split at commanded
      · next hauto =>
        cases commanded
        rw [if_pos hauto]
        exact hmem
      · cases commanded
    | _ => cases commanded
  | poll polls => exact polls.escapes h

/-- **The record of an error that ends an entrance is logged** when the operation is over. -/
theorem Enters.logs {op : Operation} (hx : s.Enters I op x)
    (h : x.outcome I = .ok (.error error, s')) (hlogs : s'.engine.Logs error record)
    (hs'' : s.perform I op = .ok s'') : record ∈ s''.engine.errors.log := by
  obtain ⟨origin, hmem⟩ := hx.escapes h
  obtain ⟨e', hcourse, hends⟩ := leads_perform I s op
  obtain ⟨-, hlog, -⟩ := hcourse.accounts
  have hfinal : s''.engine = e' := hends s'' hs''
  rw [Array.mem_def, hfinal, hlog]
  exact List.mem_append_right _ (List.mem_filterMap.mpr ⟨_, hmem, (hlogs origin).2⟩)

theorem Undertakes.logs {fuel : Nat} {s s' s'' : Session Machine} {deed : Deed}
    {x : Entrance Machine} (hx : s.Undertakes fuel deed x)
    (h : x.outcome (Machine.interpreter fuel) = .ok (.error error, s'))
    (hlogs : s'.engine.Logs error record) (hs'' : s.undertake fuel deed = .ok s'') :
    record ∈ s''.engine.errors.log := by
  cases deed with
  | operation op => exact Enters.logs hx h hlogs hs''
  | launch program stopOnEntry =>
    have hsubmits : Enters (Machine.interpreter fuel) _ (.submit ⟨.function _, []⟩) x := hx
    exact hsubmits.logs h hlogs hs''

end Session

open Machine (Moment Failure)

/-- **Records point at the failing line.** When an instruction fails in a run that a new session over
a machine without frames undertakes after any deeds, too many calls in progress included, the error
that ends the run has a record with the file of the function and the line of the instruction. Dealing
with the error adds this record to the log, where it is when the deed is over. -/
theorem Session.records_point_at_failures (fuel : Nat) (config : Config) (saved : SavedSession)
    (clock : Time) {vm : Machine} (hvm : vm.frames = .empty) {deeds : List Deed}
    {s : Session Machine} (hs : Session.undertakeAll fuel ⟨.start config saved clock, vm⟩ deeds = .ok s)
    {deed : Deed} {x : Entrance Machine} {p : Moment Engine} {f : Failure}
    (hx : s.Undertakes fuel deed x) (hp : x.Reaches fuel p) (hfails : p.Fails Engine.reply f) :
    ∃ error s' record, x.outcome (Machine.interpreter fuel) = .ok (.error error, s') ∧
      f.Recorded record ∧
      (∀ origin, (s'.engine.fail error origin).1.index = some record.index ∧
        (s'.engine.fail error origin).2.errors.log = s'.engine.errors.log.push record) ∧
      ∀ s'', s.undertake fuel deed = .ok s'' → record ∈ s''.engine.errors.log := by
  obtain ⟨hruns, hcorrelated⟩ := (hx.ready (.undertaken hvm hs)).reaches hp
  -- the run fails with an error that is recorded where the failure is, and the session logs it
  obtain ⟨error, final, e', record, hrest, hlogs, hrecorded⟩ := hfails.recorded hruns hcorrelated
  have houtcome := hp.outcome hrest
  exact ⟨error, ⟨e', final⟩, record, houtcome, hrecorded,
    fun origin => ⟨(hlogs origin).1, hlogs.log_fail origin⟩,
    fun s'' hs'' => hx.logs houtcome hlogs hs''⟩

/-- A program that fails on line 7, in a function that it calls after it was stopped in front of the
call on line 1: line 7 is logged. -/
theorem Session.record_behind_a_stop :
    ∃ s x p f error s' s'' record,
      Session.undertakeAll 10 ⟨.start {} {} 0, .stumble⟩
        [.operation .pause, .operation (.submit ⟨.function 0, [.function 1]⟩)] = .ok s ∧
      s.Undertakes 10 (.operation .resume) x ∧ x.Reaches 10 p ∧ p.Fails Engine.reply f ∧
      x.outcome (Machine.interpreter 10) = .ok (.error error, s') ∧
      s.undertake 10 (.operation .resume) = .ok s'' ∧
      record ∈ s''.engine.errors.log ∧ record.file = some "main" ∧ record.line = some 7 := by
  obtain ⟨s, x, p, f, hs, hx, hp, hfails, hadding, -, -, hresumes⟩ :=
    Session.stumbles_behind_a_stop
  obtain ⟨s'', hs'', -⟩ := Attended.exists_of_map_eq_ok hresumes
  obtain ⟨error, s', record, houtcome, hrecorded, -, hlogged⟩ :=
    Session.records_point_at_failures 10 {} {} 0 rfl hs hx hp hfails
  obtain ⟨hfile, hline, -⟩ := hrecorded
  rw [hadding] at hfile hline
  exact ⟨s, x, p, f, error, s', s'', record, hs, hx, hp, hfails, houtcome, hs'', hlogged s'' hs'',
    hfile, hline⟩

end BytecodeDebugger
