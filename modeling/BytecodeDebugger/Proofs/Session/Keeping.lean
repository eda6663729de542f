import BytecodeDebugger.Proofs.Engine.Settings
import BytecodeDebugger.Proofs.Session.Polls
import BytecodeDebugger.Session.Kept

/-!
# Sessions and their stores

A kept session puts down what is to be saved and saves it when an operation has ended. It makes no
difference whether a part is saved then or as soon as it is put down, in the middle of the operation
(`KeptSession.respond_eq`): what is written, what is answered and what is announced are the same, and
so is what becomes of a part that cannot be written. Hence a store can be thought of as written on
the spot.

Main statements, for every interpreter and any operations:

* `KeptSession.restart_restores` — a session that is begun anew over the store in memory has the
  breakpoints and the switch of the session before it;
* `KeptSession.failing_store_unnoticed` — a session over a store that cannot be read, and of which
  any write may fail, is the session without a store.
-/

namespace BytecodeDebugger

variable {σ τ : Type}

/-! ### Saving on the spot -/

namespace Engine

/-- Arms the breakpoints, or disarms them, and writes the switch before it is announced. -/
def toggleStopsInto (store : Store τ) (t : τ) (e : Engine) : Bool × Engine × τ :=
  let breakpoints := e.breakpoints.toggleStops
  let t := store.saveAll t [.stops breakpoints.stops]
  (breakpoints.stops,
    { e with breakpoints }.emit (.stopAtBreakpointsUpdated breakpoints.stops), t)

/-- Flips the breakpoint of a line and writes the flags before it is announced. Setting one arms the
breakpoints, which is written and announced in its turn. -/
def toggleBreakpointInto (store : Store τ) (t : τ) (e : Engine) (file : String) (line : Nat) :
    Except Stop (Except InvalidLine (Bool × Engine × τ)) :=
  (e.breakpoints.toggle file line).map fun toggled =>
    toggled.map fun (isSet, breakpoints) =>
      let t := store.saveAll t [.breakpoints breakpoints.flags]
      let e := { e with breakpoints }.emit (.breakpointUpdated file line isSet)
      (isSet, if isSet && !breakpoints.stops then (e.toggleStopsInto store t).2 else (e, t))

/-- The switch is written as it would be from what is put down. -/
theorem toggleStopsInto_eq (store : Store τ) (t : τ) {e : Engine} (h : e.unsaved = []) :
    e.toggleStopsInto store t =
      (e.toggleStops.1, e.toggleStops.2.takeUnsaved.2,
        store.saveAll t e.toggleStops.2.takeUnsaved.1) := by
  obtain ⟨⟩ := e
  cases h
  rfl

/-- The flags, and the switch after them, are written as they would be from what is put down. -/
theorem toggleBreakpointInto_eq (store : Store τ) (t : τ) {e : Engine} (h : e.unsaved = [])
    (file : String) (line : Nat) :
    e.toggleBreakpointInto store t file line =
      (e.toggleBreakpoint file line).map fun toggled => toggled.map fun p =>
        (p.1, p.2.takeUnsaved.2, store.saveAll t p.2.takeUnsaved.1) := by
  obtain ⟨⟩ := e
  -- both write the same parts, at once or from a queue that was empty before
  cases h
  unfold toggleBreakpointInto toggleBreakpoint
  dsimp only
  cases Breakpoints.toggle _ file line with
  | error reason => rfl
  | ok toggled =>
    cases toggled with
    | error invalid => rfl
    | ok p =>
      obtain ⟨isSet, b⟩ := p
      unfold flipped
      change Except.ok (Except.ok _) = Except.ok (Except.ok _)
      dsimp only
      split
      · rfl
      · rfl

end Engine

namespace Session

variable {I : Interpreter σ} {s s' : Session σ}

/-! ### Operations that leave the settings alone -/

theorem sameSettings_goOn {f : Stepping → Stepping}
    (hs' : (s.command f).resumeThread I = .ok s') : s.engine.SameSettings s'.engine := by
  have hgiven : s.engine.SameSettings (s.command f).engine := ⟨rfl, rfl⟩
  exact (hgiven.trans (Engine.sameSettings_transition _ .resuming {})).trans
    (served_resumeThread hs').sameSettings

theorem sameSettings_resume (hs' : s.resume I = .ok s') : s.engine.SameSettings s'.engine := by
  unfold Session.resume at hs'
  cases hgo : (s.command Stepping.resume).resumeThread I with
  | error reason =>
    rw [hgo] at hs'
    cases hs'
  | ok s₁ =>
    rw [hgo] at hs'
    cases hs'
    exact (sameSettings_goOn hgo).trans ⟨rfl, rfl⟩

theorem sameSettings_pollAt {now : Time} {budget : Nat} (hs' : s.pollAt I now budget = .ok s') :
    s.engine.SameSettings s'.engine := by
  refine pollAt_relates (R := fun s s' => s.engine.SameSettings s'.engine) (fun s => .refl s.engine)
    (fun _ _ _ => .trans) (fun _ _ => ⟨rfl, rfl⟩) (fun s task s' hdone => ?_) hs'
  cases hdone with
  | nothing => exact .refl _
  | announces => exact Engine.sameSettings_land _ _
  | steps _ hstep => exact sameSettings_goOn hstep

end Session

/-- The operation may change the breakpoints, or take what was put down. -/
def Operation.setsBreakpoints : Operation → Bool
  | .toggleBreakpoint .. => true
  | .toggleStops => true
  | .fileLoaded .. => true
  | .takeUnsaved => true
  | _ => false

/-- **Only settings change the settings.** -/
theorem Session.sameSettings_perform {I : Interpreter σ} {s s' : Session σ} {op : Operation}
    (hop : op.setsBreakpoints = false) (hs' : s.perform I op = .ok s') :
    s.engine.SameSettings s'.engine := by
  -- whatever lets the program run works on through engine steps that leave the settings alone
  cases op with
  | toggleBreakpoint | toggleStops | fileLoaded | takeUnsaved => cases hop
  | submit call => exact (served_submit hs').sameSettings
  | stepIn => exact sameSettings_goOn hs'
  | stepOver => exact sameSettings_goOn hs'
  | resume => exact sameSettings_resume hs'
  | stepOut =>
    unfold Session.perform Session.stepOut at hs'
    dsimp only at hs'
    split at hs'
    · exact sameSettings_goOn hs'
    · exact sameSettings_resume hs'
  | autoStep =>
    unfold Session.perform at hs'
    dsimp only at hs'
    obtain ⟨⟨on, s₁⟩, hauto, rfl⟩ := Attended.exists_of_map_eq_ok hs'
    unfold Session.autoStep at hauto
    dsimp only at hauto
    split at hauto
    · cases hgo : (s.command Stepping.toggleAuto).stepIn I with
      | error reason =>
        rw [hgo] at hauto
        cases hauto
      | ok s₂ =>
        rw [hgo] at hauto
        cases hauto
        have hgiven : s.engine.SameSettings (s.command Stepping.toggleAuto).engine := ⟨rfl, rfl⟩
        exact hgiven.trans (sameSettings_goOn hgo)
    · cases hauto
      exact ⟨rfl, rfl⟩
  | poll budget => exact sameSettings_pollAt hs'
  | pause =>
    cases hs'
    exact Engine.sameSettings_pause _
  | setClock now =>
    cases hs'
    exact ⟨rfl, rfl⟩
  | reportUncaught error =>
    cases hs'
    exact (s.engine.served_reportUncaught error).sameSettings
  | reportText message =>
    cases hs'
    exact (s.engine.served_reportText message).sameSettings

namespace KeptSession

variable {store : Store τ} {I : Interpreter σ} {k k' : KeptSession σ τ} {op : Operation}
  {a : Answer}

/-- **Performs an operation**, answers, and saves what was put down. -/
def respond (store : Store τ) (I : Interpreter σ) (k : KeptSession σ τ) (op : Operation) :
    Except Stop (Answer × KeptSession σ τ) :=
  k.perform store fun s => s.respond I op

/-- The same, but that every part is saved as soon as it is put down. -/
def respondAtOnce (store : Store τ) (I : Interpreter σ) (k : KeptSession σ τ) :
    Operation → Except Stop (Answer × KeptSession σ τ)
  | .toggleBreakpoint file line =>
    (k.session.engine.toggleBreakpointInto store k.store file line).map fun
      | .error invalid => (.toggled (.error invalid), k)
      | .ok (isSet, e, t) => (.toggled (.ok isSet), ⟨k.session.setEngine e, t⟩)
  | .toggleStops =>
    let (stops, e, t) := k.session.engine.toggleStopsInto store k.store
    .ok (.flag stops, ⟨k.session.setEngine e, t⟩)
  | op => (k.session.respond I op).map fun (a, session) => (a, { k with session })

/-- Nothing waits to be saved. -/
def Saved (k : KeptSession σ τ) : Prop := k.session.engine.unsaved = []

theorem saved_save (store : Store τ) (k : KeptSession σ τ) : (save store k).Saved := rfl

/-- Saving nothing changes nothing. -/
theorem Saved.save_eq (h : k.Saved) : save store k = k := by
  obtain ⟨⟨e, vm⟩, t⟩ := k
  obtain ⟨⟩ := e
  unfold Saved at h
  cases h
  rfl

/-- An operation that puts nothing down has nothing to save. -/
theorem respond_of_sameSettings (h : k.Saved) {op : Operation}
    (hquiet : ∀ s', k.session.perform I op = .ok s' → s'.engine.unsaved = k.session.engine.unsaved) :
    k.respond store I op =
      (k.session.respond I op).map fun (a, session) => (a, { k with session }) := by
  unfold respond perform
  dsimp only
  cases hop : k.session.respond I op with
  | error reason => rfl
  | ok p =>
    obtain ⟨a, s'⟩ := p
    have hperform : k.session.perform I op = .ok s' := by
      rw [← Session.map_respond, hop]
      rfl
    -- nothing is queued, so that saving writes nothing
    have hsaved : Saved { k with session := s' } := (hquiet s' hperform).trans h
    exact congrArg (fun k => Except.ok (a, k)) hsaved.save_eq

/-- **Saving after an operation is saving on the spot.** -/
theorem respond_eq (h : k.Saved) (op : Operation) :
    k.respond store I op = k.respondAtOnce store I op := by
  -- only what sets breakpoints has anything to write
  have hkeeps : op.setsBreakpoints = false → k.respond store I op =
      (k.session.respond I op).map fun (a, session) => (a, { k with session }) := fun hop =>
    respond_of_sameSettings h fun s' hs' => (Session.sameSettings_perform hop hs').unsaved
  cases op with
  | toggleBreakpoint file line =>
    have hinto := Engine.toggleBreakpointInto_eq store k.store h file line
    -- the answer and the engine are parts of one result, which is there or not in both
    unfold respond perform respondAtOnce Session.respond Engine.toggledBreakpoint
    dsimp only
    rw [hinto]
    cases k.session.engine.toggleBreakpoint file line with
    | error reason => rfl
    | ok toggled =>
      cases toggled with
      | error invalid =>
        exact congrArg (fun k => Except.ok (Answer.toggled (.error invalid), k)) h.save_eq
      | ok p => rfl
  | toggleStops =>
    unfold respondAtOnce
    dsimp only
    rw [Engine.toggleStopsInto_eq store k.store h]
    rfl
  | fileLoaded jsonUrl path? fetch =>
    refine respond_of_sameSettings h fun s' hs' => ?_
    cases hs'
    exact (k.session.engine.agrees_fileLoaded jsonUrl path? fetch).2
  | takeUnsaved =>
    refine respond_of_sameSettings h fun s' hs' => ?_
    cases hs'
    exact h.symm
  | submit | stepIn | stepOver | stepOut | resume | autoStep | pause | setClock | poll
  | reportUncaught | reportText => exact hkeeps rfl

/-- An operation that ends leaves nothing to be saved. -/
theorem saved_respond (hk' : k.respond store I op = .ok (a, k')) : k'.Saved := by
  obtain ⟨p, -, hsaved⟩ := Attended.exists_of_map_eq_ok hk'
  cases hsaved
  exact saved_save store _

/-- **Operations in order**, each of which is saved. -/
def performAll (store : Store τ) (I : Interpreter σ) (k : KeptSession σ τ) :
    List Operation → Except Stop (KeptSession σ τ)
  | [] => .ok k
  | op :: ops => (k.respond store I op).bind fun p => p.2.performAll store I ops

/-! ### Restarts -/

/-- **The store would bring the breakpoints back**: to everyone who asks, those of a new session over
it are those of this one. -/
def Restorable (config : Config) (k : KeptSession σ SavedSession) : Prop :=
  k.session.engine.breakpoints.Agrees (Engine.start config k.store 0).breakpoints

end KeptSession

namespace Engine

variable {config : Config} {saved : SavedSession} {e : Engine}

/-- The switch is written as it is; the flags are not touched. -/
theorem restores_toggleStopsInto
    (h : e.breakpoints.Agrees (Engine.start config saved 0).breakpoints) :
    (e.toggleStopsInto Store.memory saved).2.1.breakpoints.Agrees
      (Engine.start config (e.toggleStopsInto Store.memory saved).2.2 0).breakpoints :=
  ⟨rfl, h.flagAt⟩

/-- The flags are written as they are, and so is the switch if it is changed with them. -/
theorem restores_toggleBreakpointInto
    (h : e.breakpoints.Agrees (Engine.start config saved 0).breakpoints) {file : String}
    {line : Nat} {isSet : Bool} {e' : Engine} {saved' : SavedSession}
    (htoggle : e.toggleBreakpointInto Store.memory saved file line =
      .ok (.ok (isSet, e', saved'))) :
    e'.breakpoints.Agrees (Engine.start config saved' 0).breakpoints := by
  obtain ⟨toggled, hb, hrest⟩ := Attended.exists_of_map_eq_ok htoggle
  cases toggled with
  | error invalid => cases hrest
  | ok p =>
    obtain ⟨isSet', b⟩ := p
    have hstops : b.stops = e.breakpoints.stops := Breakpoints.stops_toggle hb
    -- the flags are written, and what the store says of the switch stays
    have hwritten : b.Agrees
        (Engine.start config (saved.record (.breakpoints b.flags)) 0).breakpoints :=
      ⟨h.stops.trans hstops.symm, fun _ _ => rfl⟩
    obtain ⟨⟨⟩, hdone⟩ := Prod.mk.inj (Except.ok.inj hrest)
    split at hdone
    · obtain ⟨rfl, rfl⟩ := Prod.ext_iff.mp hdone
      exact restores_toggleStopsInto hwritten
    · cases hdone
      exact hwritten

end Engine

namespace KeptSession

variable {I : Interpreter σ} {config : Config} {k k' : KeptSession σ SavedSession} {op : Operation}
  {a : Answer}

/-- **Every operation keeps the two sides equal.** -/
theorem Restorable.respond (h : k.Restorable config) (hsaved : k.Saved)
    (hk' : k.respond Store.memory I op = .ok (a, k')) : k'.Restorable config := by
  rw [respond_eq hsaved] at hk'
  -- an operation that writes nothing leaves the store, and the breakpoints to everyone who asks
  have hwrites : ∀ {s' : Session σ}, k.session.engine.breakpoints.Agrees s'.engine.breakpoints →
      Restorable config { k with session := s' } := fun hsame => hsame.symm.trans h
  have hothers : op.setsBreakpoints = false →
      (k.session.respond I op).map (fun p => (p.1, { k with session := p.2 })) = .ok (a, k') →
      k'.Restorable config := by
    intro hop hdone
    obtain ⟨⟨a', s'⟩, hresponds, heq⟩ := Attended.exists_of_map_eq_ok hdone
    have hperform : k.session.perform I op = .ok s' := by
      rw [← Session.map_respond, hresponds]
      rfl
    have hsame := (Session.sameSettings_perform hop hperform).breakpoints
    cases heq
    exact hwrites (hsame ▸ .refl _)
  cases op with
  | toggleBreakpoint file line =>
    obtain ⟨toggled, htoggle, hdone⟩ := Attended.exists_of_map_eq_ok hk'
    cases toggled with
    | error invalid =>
      cases hdone
      exact h
    | ok p =>
      cases hdone
      exact Engine.restores_toggleBreakpointInto h htoggle
  | toggleStops =>
    cases hk'
    exact Engine.restores_toggleStopsInto h
  | fileLoaded jsonUrl path? fetch =>
    cases hk'
    exact hwrites (k.session.engine.agrees_fileLoaded jsonUrl path? fetch).1
  | takeUnsaved =>
    cases hk'
    exact h
  | submit | stepIn | stepOver | stepOut | resume | autoStep | pause | setClock | poll
  | reportUncaught | reportText => exact hothers rfl hk'

/-- **A restart restores the session**, for every interpreter, over any contents of the store in
memory and after any operations: a new session over the same store and with the same configuration,
whatever its interpreter and whenever it begins, has the switch of the old one and a breakpoint on
every line on which the old one has one. -/
theorem restart_restores {ρ : Type} (I : Interpreter σ) (config : Config) (saved : SavedSession)
    (clock clock' : Time) (vm : σ) (vm' : ρ) (ops : List Operation)
    (k : KeptSession σ SavedSession)
    (hk : (start Store.memory config saved vm clock).performAll Store.memory I ops = .ok k) :
    k.session.engine.breakpoints.Agrees
      (start Store.memory config k.store vm' clock').session.engine.breakpoints := by
  -- the invariant: nothing waits to be saved, and the store would bring the breakpoints back
  have hruns : ∀ (ops : List Operation) (k₀ : KeptSession σ SavedSession), k₀.Saved →
      k₀.Restorable config → k₀.performAll Store.memory I ops = .ok k → k.Restorable config := by
    intro ops
    -- over the operations, with the kept session kept general
    induction ops with
    | nil =>
      intro k₀ _ h hk
      cases hk
      exact h
    | cons op ops ih =>
      intro k₀ hsaved h hk
      unfold performAll at hk
      cases hop : k₀.respond Store.memory I op with
      | error reason =>
        rw [hop] at hk
        cases hk
      | ok p =>
        rw [hop] at hk
        exact ih _ (saved_respond hop) (h.respond hsaved hop) hk
  exact hruns ops (start Store.memory config saved vm clock) rfl (.refl _) hk

/-- A session is begun anew after breakpoints were set in two files, one of them before it was loaded,
and disarmed. -/
theorem restored_session :
    ∃ k, (start Store.memory {} {} twoLines 0).performAll Store.memory Player.interpreter
        [.toggleBreakpoint "a" 2, .fileLoaded "b" none fun _ => .ok "", .toggleBreakpoint "b" 1,
          .toggleBreakpoint "a" 2, .pause, .submit ⟨.nil, []⟩, .toggleStops] = .ok k ∧
      k.session.engine.breakpoints.flags.flagAt "b" 1 = true ∧
      k.session.engine.breakpoints.Agrees
        (start Store.memory {} k.store twoLines 5).session.engine.breakpoints := by
  have hruns : ((start Store.memory {} {} twoLines 0).performAll Store.memory Player.interpreter
      [.toggleBreakpoint "a" 2, .fileLoaded "b" none fun _ => .ok "", .toggleBreakpoint "b" 1,
        .toggleBreakpoint "a" 2, .pause, .submit ⟨.nil, []⟩, .toggleStops]).map
      (fun k => k.session.engine.breakpoints.flags.flagAt "b" 1) = .ok true := by
    decide +kernel
  obtain ⟨k, hk, hflag⟩ := Attended.exists_of_map_eq_ok hruns
  exact ⟨k, hk, hflag, restart_restores Player.interpreter {} {} 0 5 twoLines twoLines _ k hk⟩

/-! ### Stores that fail -/

section FailingStores

variable {τ' : Type} {store : Store τ} {store' : Store τ'} {I : Interpreter σ}
  {k : KeptSession σ τ} {k' : KeptSession σ τ'}

/-- **What a session answers to operations and how it stands after each of them.** Every operation comes
with the store as it behaves at its time; a session that does not come to the end of an operation says
why. -/
def transcript
    (step : Store τ → KeptSession σ τ → Operation → Except Stop (Answer × KeptSession σ τ))
    (k : KeptSession σ τ) : List (Store τ × Operation) → List (Except Stop (Answer × Session σ))
  | [] => []
  | (store, op) :: ops =>
    match step store k op with
    | .ok (a, k) => .ok (a, k.session) :: k.transcript step ops
    | .error reason => [.error reason]

/-- The answer and the session after it do not depend on the store. -/
theorem respond_alike (store : Store τ) (store' : Store τ') (I : Interpreter σ)
    (h : k'.session = k.session) (op : Operation) :
    Outcomes (fun p p' => p'.1 = p.1 ∧ p'.2.session = p.2.session) (k.respond store I op)
      (k'.respond store' I op) := by
  unfold respond perform
  dsimp only
  rw [h]
  cases k.session.respond I op with
  | error reason => exact .stop reason
  | ok p => exact .done ⟨rfl, rfl⟩

/-- Sessions over any stores give the same transcript. -/
theorem transcript_alike (h : k'.session = k.session) {ops : List (Store τ × Operation)}
    {ops' : List (Store τ' × Operation)} (hops : ops'.map Prod.snd = ops.map Prod.snd) :
    k'.transcript (fun store k op => k.respond store I op) ops' =
      k.transcript (fun store k op => k.respond store I op) ops := by
  -- over the operations; the two stores may differ at every one of them
  induction ops generalizing ops' k k' with
  | nil =>
    obtain rfl := List.map_eq_nil_iff.mp hops
    rfl
  | cons p ops ih =>
    obtain ⟨store, op⟩ := p
    obtain ⟨⟨store', op'⟩, ops', rfl, hop, hrest⟩ := List.map_eq_cons_iff.mp hops
    obtain rfl : op' = op := hop
    have hsame := respond_alike store store' I h op'
    unfold transcript
    -- the answers are alike whatever they are
    generalize k.respond store I op' = x at hsame ⊢
    generalize k'.respond store' I op' = x' at hsame ⊢
    cases hsame with
    | stop reason => rfl
    | @done p p' hdone =>
      obtain ⟨hanswer, hsession⟩ := hdone
      dsimp only
      rw [hanswer, hsession]
      exact congrArg _ (ih hsession hrest)

/-- Nor does it matter when the parts are saved. -/
theorem Saved.transcript_atOnce (h : k.Saved) (ops : List (Store τ × Operation)) :
    k.transcript (fun store k op => k.respondAtOnce store I op) ops =
      k.transcript (fun store k op => k.respond store I op) ops := by
  induction ops generalizing k with
  | nil => rfl
  | cons p ops ih =>
    obtain ⟨store, op⟩ := p
    unfold transcript
    rw [← respond_eq h]
    cases hop : k.respond store I op with
    | error reason => rfl
    | ok p => exact congrArg _ (ih (saved_respond hop))

/-- **A failing store changes nothing but what is saved**, for every interpreter and any operations. A
session over a store that cannot be read, and of which any write may fail, begins like a session without
a store, gives the same answers to every operation, and is after each of them in the same state, its
events and the state of the interpreter included; if an operation does not end it is the same operation
in both, for the same reason. It is so if what an operation puts down is saved when it has ended, and if
every part is written on the spot, between the change and its announcement. -/
theorem failing_store_unnoticed (I : Interpreter σ) (config : Config) (clock : Time) (vm : σ)
    (store : Store τ) (t : τ) (hreads : ∀ t, ∃ error, store.load t = .error error)
    (ops : List (Store τ × Operation)) :
    (start store config t vm clock).session =
        (start Store.memory.optional config none vm clock).session ∧
      (start store config t vm clock).transcript (fun store k op => k.respond store I op) ops =
        (start Store.memory.optional config none vm clock).transcript
          (fun store k op => k.respond store I op)
          (ops.map fun p => (Store.memory.optional, p.2)) ∧
      (start store config t vm clock).transcript (fun store k op => k.respondAtOnce store I op) ops =
        (start Store.memory.optional config none vm clock).transcript
          (fun store k op => k.respondAtOnce store I op)
          (ops.map fun p => (Store.memory.optional, p.2)) := by
  obtain ⟨error, herror⟩ := hreads t
  -- what cannot be read is as if it were not there
  have hbegins : (start store config t vm clock).session =
      (start Store.memory.optional config none vm clock).session := by
    unfold start Store.start
    rw [herror]
    rfl
  have hops : ops.map Prod.snd =
      (ops.map fun p => (Store.memory.optional, p.2)).map Prod.snd := by
    rw [List.map_map]
    rfl
  have hsame := transcript_alike (I := I) hbegins hops
  refine ⟨hbegins, hsame, ?_⟩
  have hkept : (start store config t vm clock).Saved := rfl
  have halone : (start Store.memory.optional config none vm clock).Saved := rfl
  -- writing at once comes to the same as writing from the queue
  rw [hkept.transcript_atOnce, halone.transcript_atOnce]
  exact hsame

/-- A store that cannot be read and takes the switch only. -/
def switchOnly : Store (Option Bool) where
  load _ := .error (.file .notDirectory)
  save
    | _, .stops stops => .ok (some stops)
    | _, .breakpoints _ => .error (.file .notDirectory)

/-- A store that cannot be read or written. -/
def unusable : Store (Option Bool) :=
  { switchOnly with save := fun _ _ => .error (.file .notDirectory) }

/-- The switch is written once, and then nothing, while a program stops at a breakpoint. -/
theorem unusable_unnoticed :
    (∀ t, ∃ error, switchOnly.load t = .error error) ∧
      ∃ ops : List (Store (Option Bool) × Operation),
        ops.map Prod.snd = [.toggleBreakpoint "" 1, .toggleBreakpoint "a" 0, .toggleStops, .toggleStops,
          .submit ⟨.nil, []⟩, .poll 2] ∧
        ((start switchOnly { stopAtBreakpoints := false } none twoLines 0).transcript
            (fun store k op => k.respondAtOnce store Player.interpreter op) ops).map
          (fun x => x.map fun p => (p.2.engine.breakpoints.stops, p.2.engine.status)) =
        [.ok (true, .running), .ok (true, .running), .ok (false, .running), .ok (true, .running),
          .ok (true, .suspending), .ok (true, .suspended)] ∧
        (start switchOnly { stopAtBreakpoints := false } none twoLines 0).transcript
            (fun store k op => k.respondAtOnce store Player.interpreter op) ops =
          (start Store.memory.optional { stopAtBreakpoints := false } none twoLines 0).transcript
            (fun store k op => k.respondAtOnce store Player.interpreter op)
            (ops.map fun p => (Store.memory.optional, p.2)) := by
  have hreads : ∀ t, ∃ error, switchOnly.load t = .error error := fun _ => ⟨_, rfl⟩
  -- the store fails in part at first, and in all it is asked for later
  refine ⟨hreads, [(switchOnly, .toggleBreakpoint "" 1), (unusable, .toggleBreakpoint "a" 0),
    (unusable, .toggleStops), (unusable, .toggleStops), (unusable, .submit ⟨.nil, []⟩),
    (unusable, .poll 2)], rfl, by decide +kernel, ?_⟩
  exact (failing_store_unnoticed Player.interpreter { stopAtBreakpoints := false } 0 twoLines
    switchOnly none hreads _).2.2

end FailingStores

end KeptSession

end BytecodeDebugger
