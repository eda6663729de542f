import BytecodeDebugger.Proofs.Machine.Minting

/-!
# Calls that never lose a frame

A run looks its frames up again and again: the innermost one at every turn, its caller when it is
left, the frame that called a host function when the function is done, and every caller when an error
is traced. As long as the hook is honest, which means that it makes no failure of an instruction that
ran, all of them are there. The run then ends in one of two ways: it is over, and the frames are
those that were there before, or it was held up, and the frames of its stack are there besides.

A machine is followed from its beginning by `History`, which also lists the ids of all frames that
were ever entered in it.

Main statements:

* `turn_safe` — one turn under an honest hook;
* `Moment.ends` — every run that is followed to its end has a last turn;
* `History.nodup` — no id of a frame is given out twice;
* `call_safe` — what is known of a call in a machine with a history.
-/

namespace BytecodeDebugger

/-! ### Honest hooks -/

/-- What an honest hook may reply: of an instruction that ran it makes no failure. -/
def HookCall.Fair : (call : HookCall) → call.Reply → Prop
  | .after _ _ _ none, reply => reply = (none : Option RuntimeError)
  | _, _ => True

/-- **An honest hook.** -/
def Attended.Honest {σ : Type} (hook : Attended.Hook σ) : Prop :=
  ∀ frame pc code s, (hook (.after frame pc code none) s).1 = (none : Option RuntimeError)

theorem Attended.Honest.fair {σ : Type} {hook : Attended.Hook σ} (h : Attended.Honest hook)
    (call : HookCall) (s : σ) : call.Fair (hook call s).1 := by
  cases call with
  | after frame pc code failure =>
    cases failure with
    | none => exact h frame pc code s
    | some e => trivial
  | before | park | takeResume | isResuming | raise => trivial

theorem Attended.honest_alone : Attended.Honest Attended.alone := fun _ _ _ _ => rfl

theorem Engine.honest_reply : Attended.Honest Engine.reply := fun _ _ _ _ => rfl

/-- The reason is no lost frame. -/
def Stop.Harmless : Stop → Prop
  | .lostFrame _ => False
  | _ => True

/-- **How a turn leaves the frames** under an honest hook: those of the run that goes on, those of the
run that is held up, or those of the ground alone. -/
def Turn.Sound (ground : SortedMap FrameId Activation) (stack : List FrameId) : Turn → Prop
  | .goOn stack' m => stack' ≠ [] ∧ m.Runs ground stack'
  | .finish (.ok .suspended) m => m.Runs ground stack
  | .finish _ m => m.frames = ground

theorem Turn.Sound.over {ground : SortedMap FrameId Activation} {stack : List FrameId}
    {r : RunResult} {m : Machine} (h : (Turn.finish r m).Sound ground stack)
    (hr : r ≠ .ok .suspended) : m.frames = ground := by
  cases r with
  | error e => exact h
  | ok outcome =>
    cases outcome with
    | completed values => exact h
    | suspended => exact absurd rfl hr

namespace Machine

open Attended

/-! ### Turns -/

/-- Calls that host functions make stop for harmless reasons only. -/
def InnerSafe (inner : InnerCall) : Prop :=
  ∀ f args m reason, m.Bounded → inner f args m = .error reason → reason.Harmless

/-- No branch of a turn loses a frame, as long as the hook is honest. -/
def Safe (ground : SortedMap FrameId Activation) (stack : List FrameId) (t : Attended Turn) : Prop :=
  t.Yields HookCall.Fair Stop.Harmless (Turn.Sound ground stack)

section Turns

variable {inner : InnerCall} {m m₁ : Machine} {ground : SortedMap FrameId Activation}
  {stack : List FrameId} {current : FrameId} {callers : List FrameId} {a : Activation} {pc : Nat}
  {code : UInt8}

theorem host_run_safe (hkeeps : InnerKeeps inner) (hsafe : InnerSafe inner) (body : Host)
    {reason : Stop} (hb : m.Bounded) (h : body.run inner m = .error reason) :
    reason.Harmless := by
  -- over what the host function does; only the calls it makes can stop the machine
  induction body generalizing m with
  | result values => cases h
  | raise e => cases h
  | print line next ih => exact ih (m := { m with output := m.output.push line }) hb h
  | setGlobal name v next ih => exact ih (m := m.setGlobal name v) hb h
  | tables next ih => exact ih _ hb h
  | setTables heap next ih => exact ih (m := { m with heap }) hb h
  | load chunk file next ih => exact ih _ (m := (m.load chunk file).2) hb h
  | call f args next ih =>
    simp only [Host.run] at h
    split at h
    · next reason' hcall =>
      cases h
      exact hsafe f args m reason hb hcall
    · next outcome m₁ hcall =>
      obtain ⟨hframes, hgrows⟩ := hkeeps f args m outcome m₁ hb hcall
      exact ih _ (hb.of_frames hframes hgrows) h

/-- A turn that fails finds every caller. -/
theorem failTurn_safe (h : m.Runs ground (current :: callers)) (e : ExecError) :
    Safe ground stack (m.failTurn (current :: callers) e) := by
  obtain ⟨waits, hentries, -⟩ := callerEntries_of_chain h.chain
  unfold failTurn unwind
  rw [List.tail_cons, hentries]
  exact h.abandoned _

/-- A frame that is left finds its caller. -/
theorem leaveTurn_safe (h : m.Runs ground (current :: callers)) (values : List Value) :
    Safe ground stack (m.leaveTurn current callers values) := by
  cases callers with
  | nil => exact h.last
  | cons caller callers =>
    obtain ⟨b, hb⟩ := h.live caller (by simp)
    -- the caller is another frame, and is there still when its callee is dropped
    have hne : caller ≠ current := fun heq => by
      have hnodup := h.nodup
      rw [heq] at hnodup
      simp at hnodup
    have hcaller : (m.dropFrame current).frame? caller = some b := by
      rw [frame?_dropFrame, if_neg hne, hb]
    simp only [leaveTurn, hcaller]
    exact ⟨by simp, h.pop hcaller values⟩

theorem enterTurn_safe {frame : FrameId} (h : m.Runs ground (frame :: current :: callers)) :
    Safe ground stack (m.enterTurn (current :: callers) frame) := by
  unfold enterTurn
  dsimp only
  split
  · exact fun _ _ => h.abandoned none
  · exact ⟨by simp, h⟩

/-- Storing the frame that goes on keeps the stack in order. -/
theorem Runs.store {b b' : Activation} (h : m.Runs ground (current :: callers))
    (hb : m.frame? current = some b) (hclosure : b'.closure = b.closure) :
    (m.setFrame current b').Runs ground (current :: callers) :=
  h.update hb (fun f => frame?_setFrame m current f b') hclosure (.of_eq rfl rfl)

/-- The branches of a turn lose no frame. -/
theorem branches_safe (hkeeps : InnerKeeps inner) (hsafe : InnerSafe inner)
    (h : m.Runs ground (current :: callers)) (ha : m.frame? current = some a) :
    Branches inner m current callers a HookCall.Fair Stop.Harmless
      (Turn.Sound ground (current :: callers)) fun m₁ => m₁.Runs ground (current :: callers) where
  start := h
  -- only the counter of the frame that is held up may move
  held := fun pc => h.store ha rfl
  stored := fun m' a' effect hstays => hstays.runs h ha
  worked := by
    intro body m₁ result m₂ h₁ hbody
    obtain ⟨hframes, hgrows⟩ := host_run_keeps hkeeps body h₁.bounded hbody
    exact h₁.of_grows hframes hgrows
  stopped := fun body m₁ reason h₁ hbody => host_run_safe hkeeps hsafe body h₁.bounded hbody
  placed := fun m₁ b base c values h₁ hb => h₁.store hb (place_frame b base c values).1
  lost := by
    intro m₁ h₁ hlost
    obtain ⟨b, hb⟩ := h₁.live current List.mem_cons_self
    rw [hlost] at hb
    cases hb
  goesOn := fun m₁ h₁ => ⟨by simp, h₁⟩
  overflows := trivial
  fails := fun m₁ e h₁ => failTurn_safe h₁ e
  leaves := fun m₁ values h₁ _ => leaveTurn_safe h₁ values
  enters := by
    intro i closure hi hop hcallee m₁ reply hreply
    -- the hook agrees that the call was made, so that the new frame is not forgotten
    cases hreply
    exact enterTurn_safe (h.push _ ha hi hop hcallee)

/-- **A turn under an honest hook loses no frame.** -/
theorem turn_safe (hkeeps : InnerKeeps inner) (hsafe : InnerSafe inner) (h : m.Runs ground stack)
    (hne : stack ≠ []) : Safe ground stack (turn inner m stack) := by
  obtain ⟨current, callers, rfl⟩ := List.exists_cons_of_ne_nil hne
  obtain ⟨a, ha⟩ := h.live current List.mem_cons_self
  exact (branches_safe hkeeps hsafe h ha).turn ha

end Turns

/-! ### The end of a run -/

namespace Moment

variable {σ : Type} {hook : Hook σ} {p p' : Moment σ} {ground : SortedMap FrameId Activation}

/-- **The run ends here**, with the budget or with the turn that comes next. -/
inductive Ends (hook : Hook σ) : Moment σ → Except Stop ((RunResult × Machine) × σ) → Prop where
  | exhausted (stack : List FrameId) (m : Machine) (s : σ) :
    Ends hook ⟨0, stack, m, s⟩ (.error .outOfFuel)
  | stopped {budget : Nat} {stack : List FrameId} {m : Machine} {s : σ} {reason : Stop}
    (turn : (turn (fun f args m => (call budget f args m).detach) m stack).run hook s =
      .error reason) :
    Ends hook ⟨budget + 1, stack, m, s⟩ (.error reason)
  | finished {budget : Nat} {stack : List FrameId} {m m' : Machine} {s s' : σ} {r : RunResult}
    (turn : (turn (fun f args m => (call budget f args m).detach) m stack).run hook s =
      .ok (.finish r m', s')) :
    Ends hook ⟨budget + 1, stack, m, s⟩ (.ok ((r, m'), s'))

/-- **Every run comes to a moment where it ends.** -/
theorem ends (hook : Hook σ) (p : Moment σ) :
    ∃ p', Later hook p p' ∧ Ends hook p' (p.rest hook) ∧ p'.budget ≤ p.budget := by
  obtain ⟨budget, stack, m, s⟩ := p
  -- turn by turn, each of which spends one of the budget
  induction budget generalizing stack m s with
  | zero => exact ⟨_, .refl, .exhausted stack m s, Nat.le_refl _⟩
  | succ budget ih =>
    have hrest : rest hook ⟨budget + 1, stack, m, s⟩ =
        ((turn (fun f args m => (call budget f args m).detach) m stack).run hook s).bind fun q =>
          (follow budget q.1).run hook q.2 := by
      unfold rest
      dsimp only
      rw [run_succ, run_bind]
    rw [hrest]
    cases hturn : (turn (fun f args m => (call budget f args m).detach) m stack).run hook s with
    | error reason => exact ⟨_, .refl, .stopped hturn, Nat.le_refl _⟩
    | ok q =>
      obtain ⟨t, s'⟩ := q
      cases t with
      | goOn stack' m' =>
        obtain ⟨p', hlater, hends, hbudget⟩ := ih stack' m' s'
        exact ⟨p', .head (.turn hturn) hlater, hends, Nat.le_succ_of_le hbudget⟩
      | finish r m' => exact ⟨_, .refl, .finished hturn, Nat.le_refl _⟩

/-- **How a run ends under an honest hook.** -/
theorem Ends.safe {x : Except Stop ((RunResult × Machine) × σ)} (h : p.Ends hook x)
    (honest : Honest hook) (hruns : p.machine.Runs ground p.stack) (hne : p.stack ≠ [])
    (hinner : ∀ n < p.budget, InnerSafe fun f args m => (call n f args m).detach) :
    (∀ reason, x = .error reason → reason.Harmless) ∧
      ∀ r m' s', x = .ok ((r, m'), s') → (Turn.finish r m').Sound ground p.stack := by
  -- every turn is safe as long as the calls inside it are, which have a smaller budget
  have hturn : ∀ n < p.budget, Safe ground p.stack
      (turn (fun f args m => (call n f args m).detach) p.machine p.stack) :=
    fun n hn => turn_safe (innerKeeps_call n) (hinner n hn) hruns hne
  cases h with
  | exhausted stack m s => exact ⟨by rintro _ ⟨⟩; trivial, by rintro _ _ _ ⟨⟩⟩
  | @stopped budget _ _ _ _ turn =>
    have hreason := (hturn budget (Nat.lt_succ_self _)).run_error honest.fair turn
    exact ⟨by rintro _ ⟨⟩; exact hreason, by rintro _ _ _ ⟨⟩⟩
  | @finished budget _ _ _ _ _ _ turn =>
    have hsound := (hturn budget (Nat.lt_succ_self _)).run_ok honest.fair turn
    exact ⟨by rintro _ ⟨⟩, by rintro _ _ _ ⟨⟩; exact hsound⟩

end Moment

/-! ### Calls -/

section Calls

variable {σ : Type} {hook : Hook σ} {fuel : Nat} {f : Value} {args : List Value} {m m' : Machine}
  {r : RunResult} {s s' : σ} {ids : List FrameId}

variable (hook fuel args s) in
/-- A call of a function of the language ends at one of its moments. -/
theorem called_ends {closure : Closure} (hf : m.callable? f = some (.closure closure))
    (hfits : closure.Fits) :
    ∃ p : Moment σ, p.Called hook (fuel + 1) f args m s ∧
      p.Ends hook ((call (fuel + 1) f args m).run hook s) ∧ p.budget ≤ fuel := by
  obtain ⟨p, hlater, hends, hbudget⟩ :=
    Moment.ends hook ⟨fuel, [m.nextFrame], (m.enter closure args).2, s⟩
  have hcalled : p.Called hook (fuel + 1) f args m s := ⟨fuel, closure, rfl, hf, hfits, hlater⟩
  refine ⟨p, hcalled, ?_, hbudget⟩
  rw [hcalled.rest_eq, ← hlater.rest_eq]
  exact hends

/-- The call of a host function stops for harmless reasons only. -/
theorem hostCall_stops {inner : InnerCall} (hkeeps : InnerKeeps inner) (hsafe : InnerSafe inner)
    (body : Host) (hb : m.Bounded) :
    (hostCall inner body m).Yields HookCall.Fair Stop.Harmless fun _ => True := by
  have hworked : (Attended.ofExcept (body.run inner m)).Yields HookCall.Fair Stop.Harmless
      fun _ => True :=
    .ofExcept (fun _ _ => trivial) fun _ hreason => host_run_safe hkeeps hsafe body hb hreason
  exact Yields.bind hworked fun p _ => Yields.bind (restamp_yields p.1) fun _ _ => trivial

/-- Why a call stops, given that calls made by host functions stop for harmless reasons only. -/
theorem call_stops_of (hinner : ∀ n < fuel, InnerSafe fun f args m => (call n f args m).detach)
    (honest : Honest hook) (hb : m.Bounded) {reason : Stop}
    (h : (call fuel f args m).run hook s = .error reason) : reason.Harmless := by
  cases fuel with
  | zero =>
    cases h
    trivial
  | succ fuel =>
    cases hf : m.callable? f with
    | none =>
      rw [call_none hf] at h
      cases h
    | some callable =>
      cases callable with
      | closure closure =>
        -- a function too large for its registers stops the machine without a frame being lost
        by_cases hfits : closure.Fits
        · obtain ⟨p, hcalled, hends, hbudget⟩ := called_ends hook fuel args s hf hfits
          have hinner' := fun n hn => hinner n (Nat.lt_succ_of_lt (Nat.lt_of_lt_of_le hn hbudget))
          exact (hends.safe honest (hcalled.keeps hb) (hcalled.stack_ne_nil hb) hinner').1 reason h
        · rw [call_overflow hf hfits] at h
          cases h
          trivial
      | host body =>
        rw [call_host hf] at h
        have hinner' := hinner fuel (Nat.lt_succ_self fuel)
        have hstops := hostCall_stops (innerKeeps_call fuel) hinner' (body args) hb
        exact hstops.run_error honest.fair h

/-- **Calls that nobody attends lose no frame.** -/
theorem innerSafe_call (fuel : Nat) :
    InnerSafe fun f args m => (call fuel f args m).detach := by
  induction fuel using Nat.strong_induction_on with
  | h fuel ih =>
    intro f args m reason hb h
    have hdetached : (call fuel f args m).detach = .error reason := h
    have hrun : (call fuel f args m).run alone () = .error reason := by
      rw [run_alone, hdetached]
      rfl
    exact call_stops_of ih honest_alone hb hrun

/-- **A call under an honest hook loses no frame.** -/
theorem call_stops (honest : Honest hook) (hb : m.Bounded) {reason : Stop}
    (h : (call fuel f args m).run hook s = .error reason) : reason.Harmless :=
  call_stops_of (fun n _ => innerSafe_call n) honest hb h

/-- **What a call that ended leaves**: the frames there were, or, when it was held up, also those of
its stack. -/
theorem call_leaves (honest : Honest hook) (hb : m.Bounded)
    (h : (call fuel f args m).run hook s = .ok ((r, m'), s')) :
    (r ≠ .ok .suspended → m'.frames = m.frames) ∧
      (r = .ok .suspended → ∃ p : Moment σ, p.Called hook fuel f args m s ∧
        p.Ends hook (.ok ((r, m'), s')) ∧ p.stack ≠ [] ∧ m'.Runs m.frames p.stack) := by
  cases fuel with
  | zero => cases h
  | succ fuel =>
    cases hf : m.callable? f with
    | none =>
      rw [call_none hf] at h
      cases h
      exact ⟨fun _ => rfl, by simp⟩
    | some callable =>
      cases callable with
      | closure closure =>
        obtain ⟨p, hcalled, hends, -⟩ := called_ends hook fuel args s hf (fits_of_run hf h)
        rw [h] at hends
        have hne := hcalled.stack_ne_nil hb
        obtain ⟨-, hsound⟩ :=
          hends.safe honest (hcalled.keeps hb) hne fun n _ => innerSafe_call n
        refine ⟨(hsound r m' s' rfl).over, ?_⟩
        rintro rfl
        exact ⟨p, hcalled, hends, hne, hsound _ m' s' rfl⟩
      | host body =>
        -- the work of a host function is never held up
        rw [call_host hf] at h
        obtain ⟨result, m₁, r', hbody, -, heq⟩ := hostCall_eq_ok.mp h
        cases heq
        refine ⟨fun _ => (host_run_keeps (innerKeeps_call fuel) (body args) hb hbody).1, ?_⟩
        cases r' <;> simp [Except.map]

end Calls

/-! ### Histories -/

/-- **The past of a machine**, with the ids of all frames that were entered in it, in order. -/
inductive History : List FrameId → Machine → Prop where
  | initial : History [] .initial
  | tended {ids : List FrameId} {m m' : Machine} (past : History ids m) (tended : Tended m m') :
    History ids m'
  /-- a call, whatever the hook did and however it ended -/
  | call {σ : Type} {hook : Hook σ} {ids new : List FrameId} {m m' : Machine} {fuel : Nat}
    {f : Value} {args : List Value} {r : RunResult} {s s' : σ} (past : History ids m)
    (ended : (call fuel f args m).run hook s = .ok ((r, m'), s')) (entered : Mints [] m new m') :
    History (ids ++ new) m'
  /-- a chain that is entered again -/
  | resume {σ : Type} {hook : Hook σ} {ids own new : List FrameId} {m m' : Machine} {fuel : Nat}
    {outer : FrameId} {r : RunResult} {s s' : σ} (past : History ids m)
    (ended : (runFrame fuel outer m).run hook s = .ok ((r, m'), s'))
    (entered : Mints own m new m') : History (ids ++ new) m'

namespace History

variable {ids own new : List FrameId} {m m' : Machine}

/-- The ids count up from zero. -/
theorem counts (h : History ids m) : ids = List.range' 0 m.nextFrame := by
  -- new identifiers come in order behind the old ones
  have hmore : ∀ {own ids new : List FrameId} {m m' : Machine}, ids = List.range' 0 m.nextFrame →
      Mints own m new m' → ids ++ new = List.range' 0 m'.nextFrame := by
    intro own ids new m m' hids hnew
    obtain ⟨hrange, hnext⟩ := hnew.consecutive
    rw [hnext, hids]
    conv_lhs => rw [hrange]
    rw [← List.range'_append_1, Nat.zero_add]
  -- over the history of the machine
  induction h with
  | initial => rfl
  | tended _ tended ih =>
    have hids := hmore ih tended.mints
    rwa [List.append_nil] at hids
  | call _ _ entered ih => exact hmore ih entered
  | resume _ _ entered ih => exact hmore ih entered

/-- **No id of a frame is given out twice.** -/
theorem nodup (h : History ids m) : ids.Nodup := by
  rw [h.counts]
  exact List.nodup_range'

/-- Every live frame has an id that was given out. -/
theorem bounded (h : History ids m) : m.Bounded := by
  induction h with
  | initial => exact .of_empty rfl
  | tended _ tended ih => exact tended.mints.bounded ih
  | call _ _ entered ih => exact entered.bounded ih
  | resume _ _ entered ih => exact entered.bounded ih

end History

/-- **What is known of a call**, in a machine with a history and under an honest hook. Every frame that
it looks up is there. If it is over, the live frames are those there were, and each is as it was; if
it was held up, the frames of its stack are live besides, and nothing else. In either case it gave
every frame that it entered an id that no frame had before. -/
theorem call_safe {σ : Type} {hook : Hook σ} (honest : Honest hook) {ids : List FrameId}
    {m : Machine} (past : m.History ids) (fuel : Nat) (f : Value) (args : List Value) (s : σ) :
    (∀ frame, (call fuel f args m).run hook s ≠ .error (.lostFrame frame)) ∧
    ∀ r m' s', (call fuel f args m).run hook s = .ok ((r, m'), s') →
      (r ≠ .ok .suspended → m'.frames = m.frames) ∧
      (r = .ok .suspended → ∃ p : Moment σ, p.Called hook fuel f args m s ∧
        p.Ends hook (.ok ((r, m'), s')) ∧ p.stack ≠ [] ∧ p.stack.Nodup ∧
        (∀ frame ∈ p.stack, m.frame? frame = none ∧ ∃ a, m'.frame? frame = some a) ∧
        ∀ frame, frame ∉ p.stack → m'.frame? frame = m.frame? frame) ∧
      ∃ new, Mints [] m new m' ∧ (ids ++ new).Nodup ∧ m'.History (ids ++ new) := by
  constructor
  · intro frame h
    cases call_stops honest past.bounded h
  · intro r m' s' h
    -- where the frames are is one thing, and which of them are new another
    obtain ⟨hover, hsuspended⟩ := call_leaves honest past.bounded h
    obtain ⟨new, hnew⟩ := call_mints h
    have hpast : m'.History (ids ++ new) := past.call h hnew
    refine ⟨hover, fun hr => ?_, new, hnew, hpast.nodup, hpast⟩
    obtain ⟨p, hcalled, hends, hne, hruns⟩ := hsuspended hr
    exact ⟨p, hcalled, hends, hne, hruns.nodup,
      fun frame hf => ⟨hruns.apart frame hf, hruns.live frame hf⟩, hruns.rest⟩

/-- A chunk whose main function declares a function on line 1 and calls it on line 2. -/
def nesting : Chunk where
  main := {
    instructions := #[⟨36, 0, 0, 0⟩, ⟨28, 0, 1, 1⟩, ⟨30, 0, 1, 0⟩], lines := #[1, 2, 3]
    protos := [{ instructions := #[⟨3, 0, 0, 0⟩, ⟨30, 0, 1, 0⟩], lines := #[4, 5] }] }

/-- The debugger holds up the function that is called, and both frames stay. -/
theorem held_up_below_a_caller :
    ∃ m m' e e', m.History [] ∧
      (call 10 (.function 4) [] m).run Engine.reply e = .ok ((.ok .suspended, m'), e') ∧
      m'.liveFrames = 2 ∧
      (∃ p : Moment Engine, p.Called Engine.reply 10 (.function 4) [] m e ∧ p.stack.Nodup ∧
        (∀ frame ∈ p.stack, m.frame? frame = none ∧ ∃ a, m'.frame? frame = some a) ∧
        ∀ frame, frame ∉ p.stack → m'.frame? frame = m.frame? frame) ∧
      ∃ new, Mints [] m new m' ∧ new.Nodup ∧ m'.History new := by
  let e : Engine := { config := {}, breakpoints := ⟨.empty, false⟩,
                      stepping := ⟨true, some (.call 1), false⟩ }
  have past : (Machine.initial.load nesting "main").2.History [] := .tended .initial (.load nesting "main")
  -- the step is aimed at the second frame, which the first one calls
  have hrun : ∃ m' e', (call 10 (.function 4) [] (Machine.initial.load nesting "main").2).run
      Engine.reply e = .ok ((.ok .suspended, m'), e') ∧ m'.liveFrames = 2 :=
    ⟨_, _, rfl, rfl⟩
  obtain ⟨m', e', hrun, hlive⟩ := hrun
  obtain ⟨-, hends⟩ := call_safe Engine.honest_reply past 10 (.function 4) [] e
  obtain ⟨-, hsuspended, new, hnew, hnodup, hpast⟩ := hends _ m' e' hrun
  obtain ⟨p, hcalled, -, -, hstack, hlive', hrest⟩ := hsuspended rfl
  exact ⟨_, m', e, e', past, hrun, hlive, ⟨p, hcalled, hstack, hlive', hrest⟩, new, hnew, hnodup,
    hpast⟩

end Machine

end BytecodeDebugger
