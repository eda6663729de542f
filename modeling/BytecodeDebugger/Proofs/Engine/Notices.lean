import BytecodeDebugger.Proofs.Engine.Evolution

/-!
# What is owed to the clients of a stop

A stop is announced in two steps: the engine says that it is suspending, and puts off the *notice*
that the program is suspended until the interpreter has parked every frame. Several notices can be
put off at once, since a command may overtake one. The invariant `Engine.Owing` says what the list of
tasks owes: a notice of the present stop, due already, as long as the engine is suspending, and
nothing but notices of earlier stops besides. A stop that is over (`Engine.Past`) stays over, so that
its notice, which may be in the list still, means nothing any more. What a notice of the present stop
tells is what the payload tells (`Engine.Pointed`), also when the clock goes back.

Main statements:

* `Owing.evolves` — every act keeps the invariant, as long as the clock never goes back;
* `Pointed.evolves` — every act keeps notices and payload in agreement;
* `Past.evolves` — no act begins an earlier stop again.
-/

namespace BytecodeDebugger

/-- The status and the payload that an event announces. -/
def Event.update? : Event → Option (Status × Payload)
  | .stateUpdated status payload => some (status, payload)
  | _ => none

/-- **Every stop that is announced was announced to be coming**, immediately before and with the same
location. -/
def Foretold (updates : List (Status × Payload)) : Prop :=
  ∀ past payload future, updates = past ++ (.suspended, payload) :: future →
    ∃ earlier told location, past = earlier ++ [(.suspending, told)] ∧
      told.location = some location ∧ payload.location = some location

namespace Foretold

variable {updates : List (Status × Payload)}

theorem nil : Foretold [] := fun past _ _ h => by simp at h

/-- A list in which another update comes last. -/
theorem concat (h : Foretold updates) {status : Status} {payload : Payload}
    (hlast : status = .suspended → ∃ earlier told location,
      updates = earlier ++ [(.suspending, told)] ∧ told.location = some location ∧
        payload.location = some location) : Foretold (updates ++ [(status, payload)]) := by
  intro past payload' future heq
  -- the update asked about is the new one, or it was there before
  rcases List.eq_nil_or_concat future with rfl | ⟨future, last, rfl⟩
  · obtain ⟨rfl, hlasts⟩ := List.append_inj' heq rfl
    cases hlasts
    exact hlast rfl
  · -- the last update is not the one asked about
    rw [List.concat_eq_append, ← List.cons_append, ← List.append_assoc] at heq
    obtain ⟨rfl, -⟩ := List.append_inj' heq rfl
    exact h past payload' future rfl

end Foretold

namespace Timers

variable {ts : Timers} {now : Time}

/-- The timer that comes next is on the list, and due. -/
theorem mem_of_next {t : Timer} (h : ts.next now = some t) : t ∈ ts ∧ t.due ≤ now := by
  -- over the timers: what comes next is this one or comes next among the rest
  induction ts generalizing t with
  | nil => cases h
  | cons u ts ih =>
    unfold next at h
    split at h
    · next hdue =>
      obtain rfl := Option.some.inj h
      cases hrest : next now ts with
      | none => exact ⟨List.mem_cons_self, hdue⟩
      | some v =>
        obtain ⟨hmem, hv⟩ := ih hrest
        unfold sooner
        dsimp only
        split
        · exact ⟨List.mem_cons_self, hdue⟩
        · exact ⟨List.mem_cons_of_mem _ hmem, hv⟩
    · obtain ⟨hmem, hdue⟩ := ih h
      exact ⟨List.mem_cons_of_mem _ hmem, hdue⟩

/-- What is taken off was on the list, and due. -/
theorem popDue_eq_some {task : TimedTask} {rest : Timers} (h : ts.popDue now = some (task, rest)) :
    ∃ due, ⟨due, task⟩ ∈ ts ∧ due ≤ now ∧ rest = ts.erase ⟨due, task⟩ := by
  unfold popDue at h
  obtain ⟨t, ht, hpop⟩ := Option.map_eq_some_iff.mp h
  cases hpop
  obtain ⟨hmem, hdue⟩ := mem_of_next ht
  exact ⟨t.due, hmem, hdue, rfl⟩

/-- When nothing can be taken off, nothing is due. -/
theorem popDue_eq_none (h : ts.popDue now = none) : ∀ t ∈ ts, now < t.due := by
  unfold popDue at h
  rw [Option.map_eq_none_iff] at h
  -- over the timers, none of which is due
  induction ts with
  | nil => exact fun t ht => absurd ht List.not_mem_nil
  | cons u ts ih =>
    unfold next at h
    split at h
    · cases h
    · next hdue =>
      intro t ht
      rcases List.mem_cons.mp ht with rfl | ht
      · exact Nat.lt_of_not_le hdue
      · exact ih h t ht

end Timers

namespace Engine

variable {ticks : Time → Time → Prop} {e e' : Engine}

/-- The updates announced so far. -/
def updates (e : Engine) : List (Status × Payload) := e.events.toList.filterMap Event.update?

theorem Quiet.updates (h : e.Quiet e') : e'.updates = e.updates :=
  h.filterMap_events fun event hevent => by cases event <;> first | rfl | cases hevent

/-- A change of status is refused, or made and announced. -/
theorem transition_cases (e : Engine) (next : Status) (payload : Payload) :
    (e.status.mayBecome next = false ∧ (e.transition next payload).status = e.status ∧
      (e.transition next payload).updates = e.updates) ∨
    (e.status.mayBecome next = true ∧ (e.transition next payload).status = next ∧
      (e.transition next payload).updates = e.updates ++ [(next, payload)]) := by
  -- a change that is refused is not announced either
  cases hallowed : e.status.mayBecome next with
  | false =>
    left
    unfold transition
    dsimp only
    rw [if_neg (by unfold StatusRequest.isAllowed; simp [hallowed])]
    exact ⟨rfl, rfl, rfl⟩
  | true =>
    right
    rw [transition_allowed hallowed]
    refine ⟨rfl, rfl, ?_⟩
    unfold Engine.updates
    rw [Array.toList_push, List.filterMap_append]
    rfl

/-- A program that is told to go on is not suspended. -/
theorem status_resuming (e : Engine) : (e.transition .resuming {}).status = .resuming := by
  rcases e.transition_cases .resuming {} with ⟨hrefused, hkept, -⟩ | ⟨-, hmade, -⟩
  · rw [hkept]
    cases hstatus : e.status with
    | resuming => rfl
    | running | suspending | suspended =>
      rw [hstatus] at hrefused
      cases hrefused
  · exact hmade

theorem timers_transition (e : Engine) (next : Status) (payload : Payload) :
    (e.transition next payload).timers = e.timers := by
  obtain ⟨_, _, _, _, h⟩ := e.transition_eq next payload
  rw [h]

theorem epoch_transition (e : Engine) (next : Status) (payload : Payload) :
    (e.transition next payload).epoch = e.epoch := by
  obtain ⟨_, _, _, _, h⟩ := e.transition_eq next payload
  rw [h]

/-- Only a running program is stopped. -/
theorem running_of_shouldSuspend {site : Site} (h : e.shouldSuspend site = true) :
    e.status = .running ∧ e.parked = [] := by
  unfold shouldSuspend at h
  simp only [Bool.and_eq_true, decide_eq_true_eq, List.isEmpty_iff] at h
  exact ⟨h.1.1.1.1.2, h.1.1.1.2⟩

/-- The engine after a stop was started. -/
theorem suspendAt_eq {site : Site} (h : e.shouldSuspend site = true) :
    e.suspendAt site = { e with
      parked := [.call site.frame]
      barriers := e.barriers.insert site.frame (locationOf site)
      epoch := e.epoch + 1
      status := .suspending
      payload := { location := some (locationOf site) }
      requests := e.requests.push ⟨.running, .suspending, 1⟩
      events := e.events.push (.stateUpdated .suspending { location := some (locationOf site) })
      timers := e.timers.schedule e.clock (.enterSuspended (e.epoch + 1) (locationOf site)) } := by
  obtain ⟨hrunning, hparked⟩ := running_of_shouldSuspend h
  exact hold_eq hrunning hparked site []

theorem updates_announce (e : Engine) (index : ErrorIndex) :
    (e.announce index).2.updates = e.updates := by
  rw [announce_eq]
  unfold Engine.updates
  dsimp only
  split
  · rw [Array.toList_push, List.filterMap_append]
    exact List.append_nil _
  · rfl

/-! ### What the list of tasks owes -/

/-- The notice of a stop. -/
def Notice (e : Engine) (epoch : Nat) (location : SourceLocation) : Prop :=
  ∃ due, ⟨due, .enterSuspended epoch location⟩ ∈ e.timers

/-- A notice after a stop was started is an earlier one, or the new one. -/
theorem notice_suspendAt {site : Site} (h : e.shouldSuspend site = true) {epoch : Nat}
    {location : SourceLocation} (hn : (e.suspendAt site).Notice epoch location) :
    e.Notice epoch location ∨ epoch = e.epoch + 1 ∧ location = locationOf site := by
  rw [suspendAt_eq h] at hn
  obtain ⟨due, hmem⟩ := hn
  rcases List.mem_append.mp hmem with hmem | hmem
  · exact .inl ⟨due, hmem⟩
  · cases List.mem_singleton.mp hmem
    exact .inr ⟨rfl, rfl⟩

/-- What is put off after a stop was announced is a step, and no notice. -/
theorem notice_of_land {payload : Payload} {epoch : Nat} {location : SourceLocation}
    (hn : (e.land payload).Notice epoch location) : e.Notice epoch location := by
  obtain ⟨due, hmem⟩ := hn
  unfold land at hmem
  dsimp only at hmem
  split at hmem
  · rcases List.mem_append.mp hmem with hmem | hmem
    · rw [timers_transition] at hmem
      exact ⟨due, hmem⟩
    · cases List.mem_singleton.mp hmem
  · rw [timers_transition] at hmem
    exact ⟨due, hmem⟩

/-- What is left when a task is taken off the list was there before. -/
theorem notice_of_popDue {task : TimedTask} {timers : Timers} {now : Time}
    (hpop : e.timers.popDue now = some (task, timers)) {epoch : Nat} {location : SourceLocation}
    (hn : ({ e with timers }).Notice epoch location) : e.Notice epoch location := by
  obtain ⟨_, -, -, rfl⟩ := Timers.popDue_eq_some hpop
  obtain ⟨due, hmem⟩ := hn
  exact ⟨due, List.mem_of_mem_erase hmem⟩

/-- **What the list of tasks owes.** -/
structure Owing (e : Engine) : Prop where
  /-- there are no notices of stops to come -/
  earlier : ∀ epoch location, e.Notice epoch location → epoch ≤ e.epoch
  /-- the notice of the present stop is due -/
  owed : e.status = .suspending → ∃ due location,
    ⟨due, .enterSuspended e.epoch location⟩ ∈ e.timers ∧ due ≤ e.clock
  /-- every notice of the present stop tells the location that was told last -/
  agreed : e.status = .suspending → ∃ past told, e.updates = past ++ [(.suspending, told)] ∧
    ∀ location, e.Notice e.epoch location → told.location = some location
  foretold : Foretold e.updates

namespace Owing

/-- Whatever touches nothing of it. -/
theorem of_eq (h : e.Owing) (hstatus : e'.status = e.status) (hepoch : e'.epoch = e.epoch)
    (htimers : e'.timers = e.timers) (hclock : e.clock ≤ e'.clock) (hupdates : e'.updates = e.updates) :
    e'.Owing := by
  constructor
  · unfold Notice
    rw [htimers, hepoch]
    exact h.earlier
  · intro hs
    rw [htimers, hepoch]
    obtain ⟨due, location, hmem, hdue⟩ := h.owed (hstatus ▸ hs)
    exact ⟨due, location, hmem, Nat.le_trans hdue hclock⟩
  · unfold Notice
    rw [hstatus, htimers, hepoch, hupdates]
    exact h.agreed
  · rw [hupdates]
    exact h.foretold

/-- A status other than suspending owes nothing. -/
theorem of_status (h : e.Owing) (hstatus : e'.status ≠ .suspending) (hepoch : e'.epoch = e.epoch)
    (hnotices : ∀ epoch location, e'.Notice epoch location → e.Notice epoch location)
    (hforetold : Foretold e'.updates) : e'.Owing := by
  refine ⟨fun epoch location hn => ?_, fun hs => absurd hs hstatus, fun hs => absurd hs hstatus,
    hforetold⟩
  rw [hepoch]
  exact h.earlier epoch location (hnotices epoch location hn)

theorem goesOn (h : e.Owing) {next : Status} (hnext : next = .resuming ∨ next = .running) :
    (e.transition next {}).Owing := by
  rcases e.transition_cases next {} with ⟨-, hstatus, hupdates⟩ | ⟨-, hstatus, hupdates⟩
  · exact h.of_eq hstatus (epoch_transition e _ _) (timers_transition e _ _)
      (Nat.le_of_eq (clock_transition e _ _).symm) hupdates
  · refine h.of_status ?_ (epoch_transition e _ _) ?_ ?_
    · rw [hstatus]
      rintro rfl
      rcases hnext with hnext | hnext <;> cases hnext
    · unfold Notice
      rw [timers_transition]
      exact fun _ _ hn => hn
    · rw [hupdates]
      -- the update is no stop, so that nothing has to go before it
      refine h.foretold.concat fun hsuspended => ?_
      rw [hsuspended] at hnext
      rcases hnext with hnext | hnext <;> cases hnext

/-- The notice of a stop that is started is the only one of its epoch. -/
theorem suspends (h : e.Owing) {site : Site} (hsite : e.shouldSuspend site = true) :
    (e.suspendAt site).Owing := by
  -- the notices are the old ones, whose stops are earlier, and the one of this stop
  have hnotice : ∀ epoch location, (e.suspendAt site).Notice epoch location →
      epoch ≤ e.epoch ∨ epoch = e.epoch + 1 ∧ location = locationOf site :=
    fun epoch location hn => (notice_suspendAt hsite hn).imp_left (h.earlier epoch location)
  rw [suspendAt_eq hsite] at hnotice ⊢
  have hupdates : ({ e with events := e.events.push (.stateUpdated .suspending
      { location := some (locationOf site) }) }).updates =
      e.updates ++ [(.suspending, { location := some (locationOf site) })] := by
    unfold Engine.updates
    rw [Array.toList_push, List.filterMap_append]
    rfl
  constructor
  · intro epoch location hn
    rcases hnotice epoch location hn with hle | ⟨rfl, -⟩
    · exact Nat.le_succ_of_le hle
    · exact Nat.le_refl _
  · intro _
    exact ⟨e.clock, locationOf site, List.mem_append_right _ (List.mem_singleton.mpr rfl),
      Nat.le_refl _⟩
  · intro _
    refine ⟨e.updates, _, hupdates, fun location hn => ?_⟩
    rcases hnotice _ location hn with hle | ⟨-, rfl⟩
    · exact absurd hle (Nat.not_succ_le_self _)
    · rfl
  · change Foretold (Engine.updates { e with events := _ })
    rw [hupdates]
    exact h.foretold.concat fun hs => by cases hs

/-- A task that announces nothing is not the notice of the present stop. -/
theorem drops (h : e.Owing) {task : TimedTask} {timers : Timers}
    (hpop : e.timers.popDue e.clock = some (task, timers))
    (hvoid : ∀ location, ¬ e.Announces task location) : ({ e with timers }).Owing := by
  refine ⟨fun epoch location hn => h.earlier epoch location (notice_of_popDue hpop hn), ?_, ?_,
    h.foretold⟩
  · intro hs
    obtain ⟨due, hmem, -, rfl⟩ := Timers.popDue_eq_some hpop
    obtain ⟨due', location, hmem', hdue'⟩ := h.owed hs
    refine ⟨due', location, (List.mem_erase_of_ne ?_).mpr hmem', hdue'⟩
    -- what was dropped is void, and so it is not the notice that is owed
    intro heq
    exact hvoid location ⟨(Timer.mk.inj heq).2.symm, hs⟩
  · intro hs
    obtain ⟨past, told, hupdates, hagreed⟩ := h.agreed hs
    exact ⟨past, told, hupdates, fun location hn => hagreed location (notice_of_popDue hpop hn)⟩

/-- **A notice tells what was told when the stop was started.** -/
theorem lands (h : e.Owing) {task : TimedTask} {timers : Timers}
    (hpop : e.timers.popDue e.clock = some (task, timers)) {location : SourceLocation}
    (hnow : e.Announces task location) {payload : Payload}
    (hpayload : payload.location = some location) : (land { e with timers } payload).Owing := by
  obtain ⟨due, hmem, -, rfl⟩ := Timers.popDue_eq_some hpop
  obtain ⟨rfl, hs⟩ := hnow
  obtain ⟨past, told, hupdates, hagreed⟩ := h.agreed hs
  generalize hpopped : { e with timers := e.timers.erase ⟨due, .enterSuspended e.epoch location⟩ } =
    popped
  have hallowed : popped.status.mayBecome .suspended = true := by
    rw [← hpopped]
    change e.status.mayBecome .suspended = true
    rw [hs]
    rfl
  -- a program that is suspending may be suspended
  rcases popped.transition_cases .suspended payload with ⟨hrefused, -, -⟩ | ⟨-, hstatus, hnew⟩
  · rw [hallowed] at hrefused
    cases hrefused
  -- no notice is added, and the one that was taken is gone
  have hnotices : ∀ epoch location', (popped.land payload).Notice epoch location' →
      e.Notice epoch location' := by
    intro epoch location' hn
    have hn' := notice_of_land hn
    rw [← hpopped] at hn'
    obtain ⟨due', hmem'⟩ := hn'
    exact ⟨due', List.mem_of_mem_erase hmem'⟩
  obtain ⟨later, hland⟩ := popped.land_eq payload
  refine h.of_status ?_ ?_ hnotices ?_
  · rw [hland]
    change (popped.transition _ _).status ≠ _
    rw [hstatus]
    exact fun heq => by cases heq
  · rw [hland]
    change (popped.transition _ _).epoch = _
    rw [epoch_transition, ← hpopped]
  · rw [hland]
    change Foretold (popped.transition _ _).updates
    rw [hnew, ← hpopped]
    exact h.foretold.concat fun _ =>
      ⟨past, told, location, hupdates, hagreed location ⟨due, hmem⟩, hpayload⟩

/-- **Every act keeps what is owed**, as long as the clock never goes back. -/
theorem acts (h : e.Owing) (hact : Acts (· ≤ ·) e e') : e'.Owing := by
  cases hact with
  | adjusts hadjust =>
    have hquiet := hadjust.quiet
    exact h.of_eq hquiet.status hquiet.epoch hquiet.timers (Nat.le_of_eq hquiet.clock.symm)
      hquiet.updates
  | goesOn next hnext => exact h.goesOn hnext
  | suspends site hsite => exact h.suspends hsite
  | creates message => exact h.of_eq rfl rfl rfl (Nat.le_refl _) rfl
  | logs index =>
    have hupdates := e.updates_announce index
    rw [announce_eq] at hupdates ⊢
    exact h.of_eq rfl rfl rfl (Nat.le_refl _) hupdates
  | drops task timers hpop hvoid => exact h.drops hpop hvoid
  | lands task timers hpop location hnow snapshot => exact h.lands hpop hnow rfl
  | sets now hnow => exact h.of_eq rfl rfl rfl hnow rfl

theorem evolves (h : e.Owing) (hevolves : Evolves (· ≤ ·) e e') : e'.Owing :=
  hevolves.keeps (fun _ _ hact howing => howing.acts hact) h

/-- Nothing is owed at first. -/
theorem start (config : Config) (saved : SavedSession) (clock : Time) :
    (Engine.start config saved clock).Owing :=
  ⟨fun _ _ hn => absurd hn.choose_spec List.not_mem_nil, (fun hs => by cases hs),
    (fun hs => by cases hs), .nil⟩

/-- An engine that is suspending has something to do. -/
theorem not_suspending (h : e.Owing) (hidle : e.timers.popDue e.clock = none) :
    e.status ≠ .suspending := by
  intro hs
  obtain ⟨due, location, hmem, hdue⟩ := h.owed hs
  exact absurd hdue (Nat.not_le_of_lt (Timers.popDue_eq_none hidle _ hmem))

end Owing

/-! ### Where notices point -/

/-- **Notices of the present stop point where the payload points**, as long as it is not announced.
The clock has no part in this. -/
structure Pointed (e : Engine) : Prop where
  earlier : ∀ epoch location, e.Notice epoch location → epoch ≤ e.epoch
  agreed : e.status = .suspending → ∀ location, e.Notice e.epoch location →
    e.payload.location = some location

namespace Pointed

/-- No stop is started, and notices are at most taken off the list. -/
theorem of_notices (h : e.Pointed) (hepoch : e'.epoch = e.epoch)
    (hnotices : ∀ epoch location, e'.Notice epoch location → e.Notice epoch location)
    (hstands : e'.status = .suspending → e.status = .suspending ∧ e'.payload = e.payload) :
    e'.Pointed := by
  refine ⟨fun epoch location hn => ?_, fun hs location hn => ?_⟩
  · rw [hepoch]
    exact h.earlier epoch location (hnotices epoch location hn)
  · obtain ⟨hs, hpayload⟩ := hstands hs
    rw [hpayload]
    rw [hepoch] at hn
    exact h.agreed hs location (hnotices _ location hn)

theorem suspends (h : e.Pointed) {site : Site} (hsite : e.shouldSuspend site = true) :
    (e.suspendAt site).Pointed := by
  have hnotice : ∀ epoch location, (e.suspendAt site).Notice epoch location →
      epoch ≤ e.epoch ∨ epoch = e.epoch + 1 ∧ location = locationOf site :=
    fun epoch location hn => (notice_suspendAt hsite hn).imp_left (h.earlier epoch location)
  rw [suspendAt_eq hsite] at hnotice ⊢
  refine ⟨fun epoch location hn => ?_, fun _ location hn => ?_⟩
  · rcases hnotice epoch location hn with hle | ⟨rfl, -⟩
    · exact Nat.le_succ_of_le hle
    · exact Nat.le_refl _
  · -- an earlier notice has an earlier epoch
    rcases hnotice _ location hn with hle | ⟨-, rfl⟩
    · exact absurd hle (Nat.not_succ_le_self _)
    · rfl

/-- A change of status that is refused leaves a stop as it is. -/
theorem stands_transition {next : Status} (hnext : next ≠ .suspending) (payload : Payload)
    (hs : (e.transition next payload).status = .suspending) :
    e.status = .suspending ∧ (e.transition next payload).payload = e.payload := by
  unfold Engine.transition at hs ⊢
  dsimp only at hs ⊢
  split at hs
  · exact absurd hs hnext
  · next hrefused =>
    rw [if_neg hrefused]
    exact ⟨hs, rfl⟩

/-- **Every act keeps the notices pointed.** -/
theorem acts (h : e.Pointed) (hact : Acts ticks e e') : e'.Pointed := by
  cases hact with
  | adjusts hadjust =>
    have hquiet := hadjust.quiet
    refine h.of_notices hquiet.epoch ?_ fun hs => ⟨hquiet.status.symm.trans hs, hquiet.payload⟩
    unfold Notice
    rw [hquiet.timers]
    exact fun _ _ hn => hn
  | goesOn next hnext =>
    refine h.of_notices (epoch_transition e _ _) ?_ (stands_transition ?_ {})
    · unfold Notice
      rw [timers_transition]
      exact fun _ _ hn => hn
    · rintro rfl
      rcases hnext with hnext | hnext <;> cases hnext
  | suspends site hsite => exact h.suspends hsite
  | creates | sets => exact h.of_notices rfl (fun _ _ hn => hn) fun hs => ⟨hs, rfl⟩
  | logs index =>
    rw [announce_eq]
    exact h.of_notices rfl (fun _ _ hn => hn) fun hs => ⟨hs, rfl⟩
  | drops task timers hpop =>
    exact h.of_notices rfl (fun _ _ hn => notice_of_popDue hpop hn) fun hs => ⟨hs, rfl⟩
  | lands task timers hpop location hnow snapshot =>
    obtain ⟨later, hland⟩ := land_eq { e with timers }
      { location := some location, snapshot := some snapshot }
    refine h.of_notices ?_ (fun _ _ hn => notice_of_popDue hpop (notice_of_land hn)) fun hs => ?_
    · rw [hland]
      exact epoch_transition _ _ _
    · rw [hland] at hs ⊢
      exact stands_transition (by simp) _ hs

theorem evolves (h : e.Pointed) (hevolves : Evolves ticks e e') : e'.Pointed :=
  hevolves.keeps (fun _ _ hact hpointed => hpointed.acts hact) h

theorem start (config : Config) (saved : SavedSession) (clock : Time) :
    (Engine.start config saved clock).Pointed :=
  ⟨fun _ _ hn => absurd hn.choose_spec List.not_mem_nil, fun hs => by cases hs⟩

end Pointed

/-! ### Stops that are over -/

/-- **The stop of this epoch is over.** -/
def Past (epoch : Nat) (e : Engine) : Prop :=
  epoch ≤ e.epoch ∧ (epoch = e.epoch → e.status ≠ .suspending)

namespace Past

variable {epoch : Nat}

theorem transition (h : Past epoch e) {next : Status} (hnext : next ≠ .suspending)
    (payload : Payload) : Past epoch (e.transition next payload) := by
  unfold Past
  rw [epoch_transition]
  refine ⟨h.1, fun heq => ?_⟩
  rcases e.transition_cases next payload with ⟨-, hstatus, -⟩ | ⟨-, hstatus, -⟩
  · rw [hstatus]
    exact h.2 heq
  · rw [hstatus]
    exact hnext

/-- **No act begins a stop again.** -/
theorem acts (h : Past epoch e) (hact : Acts ticks e e') : Past epoch e' := by
  cases hact with
  | adjusts hadjust =>
    unfold Past
    rw [hadjust.quiet.epoch, hadjust.quiet.status]
    exact h
  | goesOn next hnext =>
    refine h.transition ?_ {}
    rintro rfl
    rcases hnext with hnext | hnext <;> cases hnext
  | suspends site hsite =>
    -- a new stop has an epoch of its own
    rw [suspendAt_eq hsite]
    exact ⟨Nat.le_succ_of_le h.1, fun heq => absurd (heq ▸ h.1) (Nat.not_succ_le_self _)⟩
  | creates message => exact h
  | logs index =>
    rw [announce_eq]
    exact h
  | drops task timers hpop hvoid => exact h
  | lands task timers hpop location hnow snapshot =>
    obtain ⟨later, hland⟩ := land_eq { e with timers }
      { location := some location, snapshot := some snapshot }
    rw [hland]
    have hpopped : Past epoch { e with timers } := h
    exact hpopped.transition (fun heq => by cases heq) _
  | sets now hnow => exact h

theorem evolves (h : Past epoch e) (hevolves : Evolves ticks e e') : Past epoch e' :=
  hevolves.keeps (fun _ _ hact hpast => hpast.acts hact) h

/-- A program that is told to go on leaves all its stops behind. -/
theorem of_resuming (h : epoch ≤ e.epoch) : Past epoch (e.transition .resuming {}) := by
  unfold Past
  rw [epoch_transition]
  refine ⟨h, fun _ => ?_⟩
  rcases e.transition_cases .resuming {} with ⟨hrefused, hstatus, -⟩ | ⟨-, hstatus, -⟩
  · rw [hstatus]
    intro hs
    rw [hs] at hrefused
    cases hrefused
  · rw [hstatus]
    exact fun heq => by cases heq

end Past

end Engine

end BytecodeDebugger
