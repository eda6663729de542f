import BytecodeDebugger.Proofs.Engine.Evolution
import BytecodeDebugger.Proofs.Engine.Logging
import BytecodeDebugger.Proofs.Text.Tag

/-!
# Errors are correlated

Whatever happens to the engine, its records are numbered by their places, what is logged is recorded,
logged once and announced in the same order (`Engine.Correlated`), and both lists only grow at their
ends (`ErrorLog.Extends`).

Errors come in four ways, which are the *faults* of a session: an interpreter asks for an error, an
error escapes from a run, and an error is reported, typed or as text. `Fault.made?` is the record that
a fault makes and `Fault.line?` the line that it adds to the log.

Main statements:

* `Correlated.evolves`, `ErrorLog.Extends.evolves` — every act keeps the log correlated and extends it;
* `Fault.adds` — a fault adds what it should to the records, the log and the announcements;
* `reportUncaught_logged`, `reportText_logged` — an error that is logged can be reported again in
  either form without any effect.
-/

namespace BytecodeDebugger

/-- The record that an event announces. -/
def Event.error? : Event → Option ErrorRecord
  | .error record => some record
  | _ => none

namespace ErrorLog

variable {l l' l'' : ErrorLog}

/-- **A log that grew at its end**, records and lines. -/
def Extends (l l' : ErrorLog) : Prop :=
  l.records.toList <+: l'.records.toList ∧ l.log.toList <+: l'.log.toList

namespace Extends

theorem refl (l : ErrorLog) : l.Extends l := ⟨List.prefix_refl _, List.prefix_refl _⟩

theorem trans (h : l.Extends l') (h' : l'.Extends l'') : l.Extends l'' :=
  ⟨h.1.trans h'.1, h.2.trans h'.2⟩

/-- **A record never changes.** -/
theorem record (h : l.Extends l') {i : ErrorIndex} {r : ErrorRecord} (hr : l.records[i]? = some r) :
    l'.records[i]? = some r := by
  rw [← Array.getElem?_toList] at hr ⊢
  obtain ⟨more, hmore⟩ := h.1
  obtain ⟨hlt, -⟩ := List.getElem?_eq_some_iff.mp hr
  rw [← hmore, List.getElem?_append_left hlt]
  exact hr

/-- What is logged stays logged. -/
theorem logged (h : l.Extends l') {i : ErrorIndex} (hi : l.logged i = true) : l'.logged i = true := by
  unfold ErrorLog.logged at hi ⊢
  rw [← Array.any_toList, List.any_eq_true] at hi ⊢
  obtain ⟨r, hr, hindex⟩ := hi
  exact ⟨r, h.2.subset hr, hindex⟩

end Extends

/-- **Logging an index** leaves the records alone and adds the line that is given back. -/
theorem correlate_spec (l : ErrorLog) (i : ErrorIndex) :
    (l.correlate i).1 = (if l.logged i then none else l.records[i]?) ∧
      (l.correlate i).2.records = l.records ∧
      (l.correlate i).2.log.toList = l.log.toList ++ (l.correlate i).1.toList := by
  unfold correlate
  cases l.records[i]? with
  | none =>
    refine ⟨?_, rfl, (List.append_nil _).symm⟩
    dsimp only
    split <;> rfl
  | some record =>
    dsimp only
    split
    · exact ⟨rfl, rfl, (List.append_nil _).symm⟩
    · exact ⟨rfl, rfl, Array.toList_push⟩

end ErrorLog

namespace Engine

variable {ticks : Time → Time → Prop} {e e' e'' : Engine}

/-- The errors announced so far. -/
def reported (e : Engine) : List ErrorRecord := e.events.toList.filterMap Event.error?

/-- **The log is correlated.** -/
structure Correlated (e : Engine) : Prop where
  numbered : ∀ (i : ErrorIndex) (r : ErrorRecord), e.errors.records[i]? = some r → r.index = i
  recorded : ∀ r ∈ e.errors.log, e.errors.records[r.index]? = some r
  once : (e.errors.log.toList.map (·.index)).Nodup
  announced : e.reported = e.errors.log.toList

/-- **Nothing happens to the errors.** -/
def SameErrors (e e' : Engine) : Prop := e'.errors = e.errors ∧ e'.reported = e.reported

namespace SameErrors

theorem refl (e : Engine) : e.SameErrors e := ⟨rfl, rfl⟩

theorem trans (h : e.SameErrors e') (h' : e'.SameErrors e'') : e.SameErrors e'' :=
  ⟨h'.1.trans h.1, h'.2.trans h.2⟩

end SameErrors

theorem Quiet.sameErrors (h : e.Quiet e') : e.SameErrors e' :=
  ⟨h.errors, h.filterMap_events fun event hevent => by cases event <;> first | rfl | cases hevent⟩

theorem Adjusts.sameErrors (h : e.Adjusts e') : e.SameErrors e' := h.quiet.sameErrors

theorem sameErrors_transition (e : Engine) (next : Status) (payload : Payload) :
    e.SameErrors (e.transition next payload) := by
  unfold transition
  dsimp only
  split
  · refine ⟨rfl, ?_⟩
    unfold reported emit
    rw [Array.toList_push, List.filterMap_append]
    exact List.append_nil _
  · exact .refl e

theorem sameErrors_suspendAt (e : Engine) (site : Site) : e.SameErrors (e.suspendAt site) :=
  sameErrors_transition { e with
    parked := .call site.frame :: e.parked
    barriers := e.barriers.insert site.frame (locationOf site)
    epoch := e.epoch + 1 } _ _

theorem sameErrors_land (e : Engine) (payload : Payload) : e.SameErrors (e.land payload) := by
  obtain ⟨timers, hland⟩ := e.land_eq payload
  rw [hland]
  exact sameErrors_transition e _ _

theorem sameErrors_pause (e : Engine) : e.SameErrors e.pause := by
  unfold pause
  split
  · exact ⟨rfl, rfl⟩
  · exact .refl e

theorem errors_announce (e : Engine) (index : ErrorIndex) :
    (e.announce index).2.errors = (e.errors.correlate index).2 := by rw [announce_eq]

theorem reported_announce (e : Engine) (index : ErrorIndex) :
    (e.announce index).2.reported = e.reported ++ (e.errors.correlate index).1.toList := by
  rw [announce_eq]
  unfold reported
  dsimp only
  split
  · next record hrecord =>
    rw [hrecord, Array.toList_push, List.filterMap_append]
    rfl
  · next hnone =>
    rw [hnone]
    exact (List.append_nil _).symm

/-- An act makes an error, logs one, or has nothing to do with them. -/
theorem Acts.errors_cases (h : Acts ticks e e') :
    e.SameErrors e' ∨
      (∃ message, e' = { e with errors := (e.errors.create message e.lastExecuted).2 }) ∨
      ∃ index, e' = (e.announce index).2 := by
  cases h with
  | adjusts h => exact .inl h.sameErrors
  | goesOn next => exact .inl (sameErrors_transition e _ _)
  | suspends site => exact .inl (sameErrors_suspendAt e site)
  | creates message => exact .inr (.inl ⟨message, rfl⟩)
  | logs index => exact .inr (.inr ⟨index, rfl⟩)
  | drops => exact .inl ⟨rfl, rfl⟩
  | lands task timers _ _ _ snapshot =>
    have hpopped : e.SameErrors { e with timers } := ⟨rfl, rfl⟩
    exact .inl (hpopped.trans (sameErrors_land _ _))
  | sets => exact .inl ⟨rfl, rfl⟩

/-! ### Errors stay correlated -/

namespace Correlated

theorem of_same (h : e.Correlated) (hsame : e.SameErrors e') : e'.Correlated := by
  obtain ⟨herrors, hreported⟩ := hsame
  refine ⟨?_, ?_, ?_, ?_⟩
  · rw [herrors]
    exact h.numbered
  · rw [herrors]
    exact h.recorded
  · rw [herrors]
    exact h.once
  · rw [herrors, hreported]
    exact h.announced

/-- A new record has the number of its place. -/
theorem creates (h : e.Correlated) (message : String) :
    ({ e with errors := (e.errors.create message e.lastExecuted).2 }).Correlated := by
  refine ⟨?_, ?_, h.once, h.announced⟩
  · intro i r hr
    simp only [ErrorLog.create, Array.getElem?_push] at hr
    split at hr
    · next hi =>
      cases hr
      exact hi.symm
    · exact h.numbered i r hr
  · intro r hr
    have hrecord := h.recorded r hr
    obtain ⟨hlt, -⟩ := Array.getElem?_eq_some_iff.mp hrecord
    simp only [ErrorLog.create, Array.getElem?_push]
    -- the new record comes behind the old ones, whose indices stay
    rw [if_neg (Nat.ne_of_lt hlt)]
    exact hrecord

/-- An index is logged only if it is not logged yet. -/
theorem logs (h : e.Correlated) (index : ErrorIndex) : (e.announce index).2.Correlated := by
  obtain ⟨hgiven, hrecords, hlog⟩ := e.errors.correlate_spec index
  have hreported := e.reported_announce index
  -- what is logged now was recorded before, and not yet logged
  have hline : ∀ r, (e.errors.correlate index).1 = some r →
      e.errors.logged index = false ∧ e.errors.records[index]? = some r := by
    intro r hr
    rw [hgiven] at hr
    split at hr
    · cases hr
    · next hfresh => exact ⟨by simpa using hfresh, hr⟩
  constructor
  · rw [errors_announce, hrecords]
    exact h.numbered
  · rw [errors_announce, hrecords]
    intro r hr
    rw [Array.mem_def, hlog, List.mem_append] at hr
    rcases hr with hr | hr
    · exact h.recorded r (Array.mem_def.mpr hr)
    · obtain ⟨-, hrecord⟩ := hline r (Option.mem_toList.mp hr)
      rw [h.numbered index r hrecord]
      exact hrecord
  · rw [errors_announce, hlog, List.map_append, List.nodup_append]
    -- at most one line is added, and its index is none of those before
    refine ⟨h.once, ?_, ?_⟩
    · cases (e.errors.correlate index).1 <;> simp
    · intro i hi j hj
      obtain ⟨r, hr, rfl⟩ := List.mem_map.mp hj
      obtain ⟨hfresh, hrecord⟩ := hline r (Option.mem_toList.mp hr)
      rintro rfl
      obtain ⟨r', hr', hindex⟩ := List.mem_map.mp hi
      rw [h.numbered index r hrecord] at hindex
      -- its index would be in the log already
      unfold ErrorLog.logged at hfresh
      rw [← Array.any_toList, List.any_eq_false] at hfresh
      exact hfresh r' hr' (decide_eq_true hindex)
  · rw [hreported, errors_announce, hlog, h.announced]

theorem acts (h : e.Correlated) (hact : Acts ticks e e') : e'.Correlated := by
  rcases hact.errors_cases with hsame | ⟨message, rfl⟩ | ⟨index, rfl⟩
  · exact h.of_same hsame
  · exact h.creates message
  · exact h.logs index

/-- **The log stays correlated**, whatever happens. -/
theorem evolves (h : e.Correlated) (hevolves : Evolves ticks e e') : e'.Correlated :=
  hevolves.keeps (fun _ _ hact hcorrelated => hcorrelated.acts hact) h

/-- Code that runs keeps it so. -/
theorem served (h : e.Correlated) (hserved : e.Served e') : e'.Correlated := by
  have hevolves : Evolves Still e e' := hserved.evolves
  exact h.evolves hevolves

theorem start (config : Config) (saved : SavedSession) (clock : Time) :
    (Engine.start config saved clock).Correlated :=
  ⟨fun i r hr => by simp [Engine.start] at hr, fun r hr => by simp [Engine.start] at hr,
    List.nodup_nil, rfl⟩

end Correlated

theorem extends_create (l : ErrorLog) (message : String) (position : Option SourceLocation) :
    l.Extends (l.create message position).2 := by
  refine ⟨?_, List.prefix_refl _⟩
  simp only [ErrorLog.create, Array.toList_push]
  exact List.prefix_append _ _

theorem extends_correlate (l : ErrorLog) (i : ErrorIndex) : l.Extends (l.correlate i).2 := by
  obtain ⟨-, hrecords, hlog⟩ := l.correlate_spec i
  refine ⟨?_, ?_⟩
  · exact hrecords ▸ List.prefix_refl _
  · rw [hlog]
    exact List.prefix_append _ _

/-- **The log only grows at its end**, whatever happens. -/
theorem Evolves.extends (h : Evolves ticks e e') : e.errors.Extends e'.errors := by
  refine h.relates (R := fun e e' => e.errors.Extends e'.errors) (fun _ => .refl _)
    (fun _ _ _ => .trans) fun e e' hact => ?_
  rcases hact.errors_cases with ⟨herrors, -⟩ | ⟨message, rfl⟩ | ⟨index, rfl⟩
  · rw [herrors]
    exact .refl _
  · exact extends_create _ _ _
  · rw [errors_announce]
    exact extends_correlate _ _

/-! ### Reports of what is logged -/

/-- Announcing what is logged does nothing. -/
theorem announce_logged {index : ErrorIndex} (h : e.errors.logged index = true) :
    e.announce index = (none, e) := by
  have hsilent : e.errors.correlate index = (none, e.errors) := by
    unfold ErrorLog.correlate
    cases e.errors.records[index]? with
    | none => rfl
    | some record => exact if_pos h
  unfold announce
  rw [hsilent]

/-- **An error that is logged can be reported again** without any effect, -/
theorem reportUncaught_logged {error : RuntimeError} {index : ErrorIndex}
    (hindex : error.index = some index) (h : e.errors.logged index = true) :
    e.reportUncaught error = (none, e) := by
  unfold reportUncaught
  rw [hindex]
  exact announce_logged h

/-- also as text. -/
theorem reportText_logged {error : RuntimeError} {index : ErrorIndex}
    (hindex : error.index = some index) (h : e.errors.logged index = true) :
    e.reportText error.text = (none, e) := by
  unfold reportText
  rw [RuntimeError.ofTagged_text hindex]
  split
  · next i hi =>
    split at hi
    · cases hi
      exact announce_logged h
    · cases hi
  · rfl

/-! ### Faults -/

/-- The record that an error gets now. -/
def recordOf (e : Engine) (message : String) : ErrorRecord :=
  { index := e.errors.records.size, file := e.lastExecuted.map (·.url)
    line := e.lastExecuted.map (·.line), message }

end Engine

/-- The message in the record of an error that escapes; a failure of the host is wrapped. -/
def ExecError.recordMessage : ExecError → String
  | .runtime error => error.message
  | .host error => ErrorLog.hostMessage error

/-- The index of an error, if there is a record of it in this log. -/
def ErrorLog.indexOf? (l : ErrorLog) : ExecError → Option ErrorIndex
  | .runtime error => error.index.filter l.knows
  | .host _ => none

/-- An error that has a record keeps it, and any other gets one. -/
theorem ErrorLog.adopt_eq (l : ErrorLog) (error : RuntimeError) (position : Option SourceLocation) :
    l.adopt error position = match l.indexOf? (.runtime error) with
      | some _ => (error, l)
      | none =>
        ({ (l.create error.message position).1 with stack := error.stack },
          (l.create error.message position).2) := by
  obtain ⟨message, stack, index⟩ := error
  unfold adopt indexOf?
  cases index with
  | none => rfl
  | some i =>
    dsimp only
    -- both sides ask whether the index is known, in two different ways
    cases hknown : l.knows i with
    | true =>
      have hany : (some i).any l.knows = true := hknown
      rw [if_pos hany, Option.filter_some_pos hknown]
    | false =>
      have hany : ¬ (some i).any l.knows = true := by
        rw [Option.any_some, hknown]
        exact Bool.false_ne_true
      rw [if_neg hany, Option.filter_some_neg hknown]

/-- **A way in which an error reaches the engine**, with the engine at that moment. -/
inductive Fault where
  /-- an interpreter asks for an error -/
  | raised (e : Engine) (message : String)
  /-- an error escapes from a run -/
  | escaped (e : Engine) (error : ExecError) (origin : Option StackEntry)
  /-- an error is reported -/
  | reported (e : Engine) (error : RuntimeError)
  /-- the text of an error is reported -/
  | reportedText (e : Engine) (message : String)

namespace Fault

/-- The engine that the fault meets. -/
def engine : Fault → Engine
  | .raised e _ => e
  | .escaped e _ _ => e
  | .reported e _ => e
  | .reportedText e _ => e

/-- The engine after it dealt with the fault. -/
def after : Fault → Engine
  | .raised e message => (e.raise message).2
  | .escaped e error origin => (e.fail error origin).2
  | .reported e error => (e.reportUncaught error).2
  | .reportedText e message => (e.reportText message).2

/-- **The record that a fault makes**: only errors without a record get one. -/
def made? : Fault → Option ErrorRecord
  | .raised e message => some (e.recordOf message)
  | .escaped e error _ =>
    match e.errors.indexOf? error with
    | some _ => none
    | none => some (e.recordOf error.recordMessage)
  | .reported e error =>
    match error.index with
    | some _ => none
    | none => some (e.recordOf error.message)
  | .reportedText _ _ => none

/-- The index that is to be logged. -/
def index? : Fault → Option ErrorIndex
  | .raised _ _ => none
  | .escaped e error _ => some ((e.errors.indexOf? error).getD e.errors.records.size)
  | .reported e error => some (error.index.getD e.errors.records.size)
  | .reportedText _ message => ErrorIndex.ofTagged message

/-- **The line that a fault adds to the log**: the record of its index, unless it is logged. -/
def line? (x : Fault) : Option ErrorRecord :=
  x.index?.bind fun i => if x.engine.errors.logged i then none else x.after.errors.records[i]?

/-- **What a fault adds** to the records, to the log and to the announcements. -/
structure Adds (x : Fault) : Prop where
  records : x.after.errors.records.toList = x.engine.errors.records.toList ++ x.made?.toList
  log : x.after.errors.log.toList = x.engine.errors.log.toList ++ x.line?.toList
  reported : x.after.reported = x.engine.reported ++ x.line?.toList

/-- A fault that makes its record, if any, and announces an index. -/
theorem Adds.of_announce {x : Fault} (e₁ : Engine) {i : ErrorIndex} (hindex : x.index? = some i)
    (hlog : e₁.errors.log = x.engine.errors.log) (hreported : e₁.reported = x.engine.reported)
    (hrecords : e₁.errors.records.toList = x.engine.errors.records.toList ++ x.made?.toList)
    (hafter : x.after = (e₁.announce i).2) : x.Adds := by
  obtain ⟨hgiven, hkept, hadded⟩ := e₁.errors.correlate_spec i
  -- the same log, so that the same indices count as logged
  have hlogged : e₁.errors.logged i = x.engine.errors.logged i := by
    unfold ErrorLog.logged
    rw [hlog]
  have hline : x.line? = (e₁.errors.correlate i).1 := by
    unfold line?
    rw [hindex, hafter, Engine.errors_announce, hkept, hgiven, hlogged]
    rfl
  refine ⟨?_, ?_, ?_⟩
  · rw [hafter, Engine.errors_announce, hkept, hrecords]
  · rw [hline, hafter, Engine.errors_announce, hadded, hlog]
  · rw [hline, hafter, Engine.reported_announce, hreported]

/-- The engine after an error was made. -/
theorem records_create (e : Engine) (message : String) :
    (e.errors.create message e.lastExecuted).2.records.toList =
      e.errors.records.toList ++ [e.recordOf message] := by
  unfold ErrorLog.create
  rw [Array.toList_push]
  rfl

/-- An error that escapes gets a record of this session, unless it has one. -/
theorem normalize_spec (e : Engine) (error : ExecError) :
    (e.normalize error).1.index = some ((e.errors.indexOf? error).getD e.errors.records.size) ∧
      (e.normalize error).2 = match e.errors.indexOf? error with
        | some _ => e
        | none => { e with errors := (e.errors.create error.recordMessage e.lastExecuted).2 } := by
  cases error with
  | host failure => exact ⟨rfl, rfl⟩
  | runtime error =>
    unfold Engine.normalize
    dsimp only
    rw [ErrorLog.adopt_eq]
    cases hknown : e.errors.indexOf? (.runtime error) with
    | none => exact ⟨rfl, rfl⟩
    | some i => exact ⟨(Option.filter_eq_some_iff.mp hknown).1, rfl⟩

/-- The error that is given back has the index. -/
theorem index_fail (e : Engine) (error : ExecError) (origin : Option StackEntry) :
    (e.fail error origin).1.index =
      some ((e.errors.indexOf? error).getD e.errors.records.size) :=
  (Engine.index_origin _ origin).trans (normalize_spec e error).1

theorem adds_escaped (e : Engine) (error : ExecError) (origin : Option StackEntry) :
    (escaped e error origin).Adds := by
  obtain ⟨-, hnormal⟩ := normalize_spec e error
  -- any error is made a record, the frames are forgotten, and the record is announced
  have hfail : (e.fail error origin).2 = ((e.normalize error).2.forgetFrames.announce
      ((e.errors.indexOf? error).getD e.errors.records.size)).2 := by
    change ((e.normalize error).2.forgetFrames.reportUncaught (e.fail error origin).1).2 = _
    unfold Engine.reportUncaught
    rw [index_fail]
  refine .of_announce _ rfl ?_ ?_ ?_ hfail
  · unfold Engine.forgetFrames
    dsimp only
    rw [hnormal]
    split <;> rfl
  · unfold Engine.forgetFrames
    rw [hnormal]
    split <;> rfl
  · unfold Engine.forgetFrames made?
    dsimp only
    rw [hnormal]
    split
    · exact (List.append_nil _).symm
    · exact records_create e _

theorem adds_reported (e : Engine) (error : RuntimeError) : (reported e error).Adds := by
  obtain ⟨message, stack, index⟩ := error
  cases index with
  | some i =>
    have hafter : (reported e ⟨message, stack, some i⟩).after = (e.announce i).2 := rfl
    exact .of_announce e rfl rfl rfl (List.append_nil _).symm hafter
  | none =>
    -- the error is made first
    let made : Engine := { e with errors := (e.errors.create message e.lastExecuted).2 }
    have hafter : (reported e ⟨message, stack, none⟩).after =
        (made.announce e.errors.records.size).2 := rfl
    exact .of_announce made rfl rfl rfl (records_create e message) hafter

theorem adds_reportedText (e : Engine) (message : String) : (reportedText e message).Adds := by
  cases hindex : ErrorIndex.ofTagged message with
  -- a text with a tag is a line of the log, one without is no matter of the log
  | some i =>
    have hafter : (e.reportText message).2 = (e.announce i).2 := by
      unfold Engine.reportText
      rw [hindex]
    exact .of_announce e hindex rfl rfl (List.append_nil _).symm hafter
  | none =>
    have hafter : (reportedText e message).after = e := by
      change (e.reportText message).2 = e
      unfold Engine.reportText
      rw [hindex]
    have hline : (reportedText e message).line? = none := by
      change (ErrorIndex.ofTagged message).bind _ = none
      rw [hindex]
      rfl
    refine ⟨?_, ?_, ?_⟩
    · rw [hafter]
      exact (List.append_nil _).symm
    · rw [hafter, hline]
      exact (List.append_nil _).symm
    · rw [hafter, hline]
      exact (List.append_nil _).symm

/-- **Every fault adds what it should.** -/
theorem adds (x : Fault) : x.Adds := by
  cases x with
  | raised e message =>
    exact ⟨records_create e message, (List.append_nil _).symm, (List.append_nil _).symm⟩
  | escaped e error origin => exact adds_escaped e error origin
  | reported e error => exact adds_reported e error
  | reportedText e message => exact adds_reportedText e message

/-- A record is numbered by its place. -/
theorem index_of_made (x : Fault) {r : ErrorRecord} (h : x.made? = some r) :
    r.index = x.engine.errors.records.size := by
  cases x with
  | raised e message =>
    cases h
    rfl
  | escaped e error origin =>
    unfold made? at h
    dsimp only at h
    split at h
    · cases h
    · cases h
      rfl
  | reported e error =>
    unfold made? at h
    dsimp only at h
    split at h
    · cases h
    · cases h
      rfl
  | reportedText e message => cases h

/-- Dealing with a fault is a matter of acts. -/
theorem evolves_after (x : Fault) : Engine.Evolves Engine.Still x.engine x.after := by
  cases x with
  | raised e message => exact (Engine.Acts.creates message).evolves
  | escaped e error origin => exact (Engine.served_fail e error origin).evolves
  | reported e error => exact (Engine.served_reportUncaught e error).evolves
  | reportedText e message => exact (Engine.served_reportText e message).evolves

/-- The record of an error that escapes is the one that was made for it, or was there already. -/
theorem record_escaped (e : Engine) (error : ExecError) (origin : Option StackEntry) :
    ∃ record, (e.fail error origin).2.errors.records[
        (e.errors.indexOf? error).getD e.errors.records.size]? = some record ∧
      ∀ made, (escaped e error origin).made? = some made → made = record := by
  have hrecords : (e.fail error origin).2.errors.records.toList =
      e.errors.records.toList ++ (escaped e error origin).made?.toList :=
    (adds_escaped e error origin).records
  rw [← Array.getElem?_toList, hrecords]
  cases hknown : e.errors.indexOf? error with
  | none =>
    -- an error without a known index gets the record behind all others
    have hmade : (escaped e error origin).made? = some (e.recordOf error.recordMessage) := by
      unfold made?
      dsimp only
      rw [hknown]
    refine ⟨e.recordOf error.recordMessage, ?_, fun made h => ?_⟩
    · rw [hmade, Option.getD_none, ← Array.length_toList,
        List.getElem?_append_right (Nat.le_refl _), Nat.sub_self]
      rfl
    · rw [hmade] at h
      exact (Option.some.inj h).symm
  | some i =>
    -- an index that is known has a record
    have hlt : i < e.errors.records.toList.length := by
      cases error with
      | host failure => cases hknown
      | runtime error =>
        obtain ⟨-, hi⟩ := Option.filter_eq_some_iff.mp hknown
        unfold ErrorLog.knows at hi
        rw [Array.length_toList]
        exact of_decide_eq_true hi
    refine ⟨e.errors.records.toList[i], ?_, fun made h => ?_⟩
    · rw [Option.getD_some, List.getElem?_append_left hlt]
      exact List.getElem?_eq_getElem hlt
    · unfold made? at h
      dsimp only at h
      rw [hknown] at h
      cases h

/-- **An error that escapes is recorded**, and its record is the line that is logged, unless the index
was logged before. -/
theorem line_escaped {e : Engine} (h : e.Correlated) (error : ExecError)
    (origin : Option StackEntry) :
    ∃ i record, (e.fail error origin).1.index = some i ∧ record.index = i ∧
      (e.fail error origin).2.errors.records[i]? = some record ∧
      (∀ made, (escaped e error origin).made? = some made → made = record) ∧
      (escaped e error origin).line? = if e.errors.logged i then none else some record := by
  obtain ⟨record, hrecord, hmade⟩ := record_escaped e error origin
  -- reporting is an engine step, so that the log behind it is in order
  have hafter : (e.fail error origin).2.Correlated :=
    h.evolves (escaped e error origin).evolves_after
  refine ⟨_, record, index_fail e error origin, hafter.numbered _ _ hrecord, hrecord, hmade, ?_⟩
  unfold line? index?
  dsimp only [Option.bind_some, engine, after]
  rw [hrecord]
  rfl

/-- **An error that escapes is logged** afterwards. -/
theorem logged_escaped {e : Engine} (h : e.Correlated) (error : ExecError)
    (origin : Option StackEntry) :
    ∃ i, (e.fail error origin).1.index = some i ∧
      (e.fail error origin).2.errors.logged i = true := by
  obtain ⟨i, record, hindex, hi, -, -, hline⟩ := line_escaped h error origin
  refine ⟨i, hindex, ?_⟩
  have hlog := (adds_escaped e error origin).log
  rw [hline] at hlog
  change (e.fail error origin).2.errors.log.toList =
    e.errors.log.toList ++ (if e.errors.logged i then none else some record).toList at hlog
  unfold ErrorLog.logged at hlog ⊢
  rw [← Array.any_toList] at hlog ⊢
  rw [hlog, List.any_append]
  -- it is among the lines that were there, or it is the new line
  cases e.errors.log.toList.any fun r => decide (r.index = i) with
  | true => rfl
  | false => exact (Bool.or_false _).trans (decide_eq_true hi)

end Fault

end BytecodeDebugger
