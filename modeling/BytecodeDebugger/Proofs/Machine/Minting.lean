import BytecodeDebugger.Proofs.Machine.Branches

/-!
# Which frames a run makes and touches

`Mints own m ids m'` records what happened to the frames on the way from `m` to `m'`, one operation
after the other: a frame was stored anew, dropped or entered. Only frames of `own` were stored or
dropped, and frames that were entered on the way; `ids` are the ids of the latter, in the order in
which they were given out.

Whatever the hook replies, a run has such a record, with its stack as `own`. A call has one with
nothing as `own`: it touches no frame that was there before it. As every id is the counter of its
moment, and the counter only goes up, no id is given out twice.

Main statements:

* `turn_mints`, `run_mints`, `call_mints` — the records of a turn, a run and a call;
* `Mints.nodup`, `Mints.fresh` — the ids of a record differ from each other and from those before;
* `Mints.untouched` — what a record leaves alone.
-/

namespace BytecodeDebugger.Machine

open Attended

/-! ### Records -/

/-- **What happens to frames** on the way from `m`: only frames of `own` and new ones are stored and
dropped, and the new ones have the ids that are listed. -/
inductive Mints (own : List FrameId) (m : Machine) : List FrameId → Machine → Prop where
  | start : Mints own m [] m
  /-- something that does not concern frames -/
  | quiet {ids : List FrameId} {m₁ m₂ : Machine} (h : Mints own m ids m₁)
    (frames : m₂.frames = m₁.frames) (nextFrame : m₂.nextFrame = m₁.nextFrame) :
    Mints own m ids m₂
  | store {ids : List FrameId} {m₁ : Machine} {f : FrameId} (h : Mints own m ids m₁)
    (mine : f ∈ own ++ ids) (live : ∃ b, m₁.frame? f = some b) (a : Activation) :
    Mints own m ids (m₁.setFrame f a)
  | drop {ids : List FrameId} {m₁ : Machine} {f : FrameId} (h : Mints own m ids m₁)
    (mine : f ∈ own ++ ids) : Mints own m ids (m₁.dropFrame f)
  | enter {ids : List FrameId} {m₁ : Machine} (h : Mints own m ids m₁) (closure : Closure)
    (args : List Value) : Mints own m (ids ++ [m₁.nextFrame]) (m₁.enter closure args).2

namespace Mints

variable {own own' ids ids' : List FrameId} {m m₁ m₂ : Machine} {f : FrameId}

/-- Records follow each other. What belongs to the second has to belong to the first. -/
theorem trans (h : Mints own m ids m₁) (h' : Mints own' m₁ ids' m₂)
    (hown : ∀ f ∈ own', f ∈ own ++ ids) : Mints own m (ids ++ ids') m₂ := by
  have hmine : ∀ {k : List FrameId}, ∀ f ∈ own' ++ k, f ∈ own ++ (ids ++ k) := by
    intro k f hf
    rw [← List.append_assoc]
    rcases List.mem_append.mp hf with hf | hf
    · exact List.mem_append_left _ (hown f hf)
    · exact List.mem_append_right _ hf
  -- operation by operation of the second record
  induction h' with
  | start =>
    rw [List.append_nil]
    exact h
  | quiet _ frames nextFrame ih => exact ih.quiet frames nextFrame
  | store _ mine live a ih => exact ih.store (hmine _ mine) live a
  | drop _ mine ih => exact ih.drop (hmine _ mine)
  | enter _ closure args ih =>
    rw [← List.append_assoc]
    exact ih.enter closure args

/-- Dropping frames, whatever is rendered of them before. -/
theorem abandon (h : Mints own m ids m₁) {stack : List FrameId}
    (hmine : ∀ f ∈ stack, f ∈ own ++ ids) (traceback : Option String) :
    Mints own m ids ({ m₁ with traceback }.abandon stack) := by
  have hrendered : Mints own m ids { m₁ with traceback } := h.quiet rfl rfl
  unfold Machine.abandon
  generalize ({ m₁ with traceback } : Machine) = m₂ at hrendered
  induction stack generalizing m₂ with
  | nil => exact hrendered
  | cons f stack ih =>
    obtain ⟨hf, hstack⟩ := List.forall_mem_cons.mp hmine
    exact ih hstack _ (hrendered.drop hf)

/-- **The ids are consecutive**: each is the counter of its moment. -/
theorem consecutive (h : Mints own m ids m₁) :
    ids = List.range' m.nextFrame ids.length ∧ m₁.nextFrame = m.nextFrame + ids.length := by
  -- over the steps; only entering a frame takes a number
  induction h with
  | start => exact ⟨rfl, rfl⟩
  | quiet _ _ nextFrame ih => exact ⟨ih.1, nextFrame.trans ih.2⟩
  | store _ _ _ _ ih => exact ih
  | drop _ _ ih => exact ih
  | @enter ids m₁ _ closure args ih =>
    obtain ⟨hids, hnext⟩ := ih
    rw [List.length_append, List.length_singleton]
    constructor
    · rw [List.range'_concat, ← hids, hnext, Nat.one_mul]
    · change m₁.nextFrame + 1 = _
      rw [hnext, Nat.add_assoc]

/-- **No id is given out twice.** -/
theorem nodup (h : Mints own m ids m₁) : ids.Nodup := by
  rw [h.consecutive.1]
  exact List.nodup_range'

theorem mem_iff (h : Mints own m ids m₁) : f ∈ ids ↔ m.nextFrame ≤ f ∧ f < m₁.nextFrame := by
  obtain ⟨hids, hnext⟩ := h.consecutive
  rw [hnext, hids, List.mem_range'_1, List.length_range']

/-- An id that is given out was not given out before. -/
theorem fresh (h : Mints own m ids m₁) (hf : f < m.nextFrame) : f ∉ ids :=
  fun hmem => Nat.not_lt.mpr (h.mem_iff.mp hmem).1 hf

/-- **What is left alone**: frames with older ids that are not among those that may be touched. -/
theorem untouched (h : Mints own m ids m₁) (hf : f < m.nextFrame) (hown : f ∉ own) :
    m₁.frame? f = m.frame? f := by
  -- a frame that is written to is one's own or new, and this one is neither
  have hmine : ∀ {k : List FrameId} {g : FrameId} {m₂ : Machine}, Mints own m k m₂ →
      g ∈ own ++ k → f ≠ g := by
    rintro k g m₂ hk hg rfl
    rcases List.mem_append.mp hg with hg | hg
    · exact hown hg
    · exact hk.fresh hf hg
  -- over the steps
  induction h with
  | start => rfl
  | quiet _ frames _ ih => exact (congrArg (·.get? f) frames).trans ih
  | store hk mine _ a ih => rw [frame?_setFrame, if_neg (hmine hk mine), ih]
  | drop hk mine ih => rw [frame?_dropFrame, if_neg (hmine hk mine), ih]
  | @enter ids m₁ hk closure args ih =>
    obtain ⟨b, -, -, hframes⟩ := frame?_enter m₁ closure args
    have hne : f ≠ m₁.nextFrame := by
      rw [hk.consecutive.2]
      exact Nat.ne_of_lt (Nat.lt_of_lt_of_le hf (Nat.le_add_right _ _))
    rw [hframes, if_neg hne, ih]

/-- A frame that is live was live before, or is new. -/
theorem live (h : Mints own m ids m₁) {a : Activation} (hf : m₁.frame? f = some a) :
    (∃ b, m.frame? f = some b) ∨ f ∈ ids := by
  -- over the steps: a frame that is there is an old one, or was entered on the way
  induction h generalizing a with
  | start => exact .inl ⟨a, hf⟩
  | quiet _ frames _ ih => exact ih ((congrArg (·.get? f) frames).symm.trans hf)
  | @store _ _ g _ _ hlive _ ih =>
    rw [frame?_setFrame] at hf
    split at hf
    · next hg =>
      obtain ⟨b, hb⟩ := hlive
      rw [← hg] at hb
      exact ih hb
    · exact ih hf
  | drop _ _ ih =>
    rw [frame?_dropFrame] at hf
    split at hf
    · cases hf
    · exact ih hf
  | @enter _ m₁ _ closure args ih =>
    obtain ⟨b, -, -, hframes⟩ := frame?_enter m₁ closure args
    rw [hframes] at hf
    split at hf
    · next hnew => exact .inr (by rw [hnew]; exact List.mem_append_right _ List.mem_cons_self)
    · rcases ih hf with hold | hmem
      · exact .inl hold
      · exact .inr (List.mem_append_left _ hmem)

theorem bounded (h : Mints own m ids m₁) (hb : m.Bounded) : m₁.Bounded := by
  intro f a hf
  rcases h.live hf with ⟨b, hold⟩ | hmem
  · rw [h.consecutive.2]
    exact Nat.lt_of_lt_of_le (hb f b hold) (Nat.le_add_right _ _)
  · exact (h.mem_iff.mp hmem).2

end Mints

/-! ### Between runs -/

/-- **What a host does to a machine between runs**: it adds a host function or a chunk, sets a global,
or takes what was printed. -/
inductive Tended (m : Machine) : Machine → Prop where
  | register (name : String) (body : HostFunction) : Tended m (m.register name body)
  | load (chunk : Chunk) (file : String) : Tended m (m.load chunk file).2
  | setGlobal (name : String) (v : Value) : Tended m (m.setGlobal name v)
  | takeOutput : Tended m m.takeOutput.2

theorem Tended.mints {m m' : Machine} (h : Tended m m') : Mints [] m [] m' := by
  cases h <;> exact .quiet .start rfl rfl

/-! ### Turns -/

/-- Calls that host functions make touch nothing that was there before. -/
def InnerMints (inner : InnerCall) : Prop :=
  ∀ f args m r m', inner f args m = .ok (r, m') → ∃ ids, Mints [] m ids m'

theorem host_run_mints {inner : InnerCall} (hinner : InnerMints inner) (body : Host)
    {m m' : Machine} {r : Except ExecError (List Value)} (h : body.run inner m = .ok (r, m')) :
    ∃ ids, Mints [] m ids m' := by
  -- over what the host function does; its calls number frames, and the rest does not
  induction body generalizing m with
  | result values =>
    cases h
    exact ⟨[], .start⟩
  | raise e =>
    cases h
    exact ⟨[], .start⟩
  | print line next ih =>
    obtain ⟨ids, hids⟩ := ih (m := { m with output := m.output.push line }) h
    have hprinted : Mints [] m [] { m with output := m.output.push line } := .quiet .start rfl rfl
    exact ⟨ids, hprinted.trans hids (by simp)⟩
  | setGlobal name v next ih =>
    obtain ⟨ids, hids⟩ := ih (m := m.setGlobal name v) h
    have hset : Mints [] m [] (m.setGlobal name v) := .quiet .start rfl rfl
    exact ⟨ids, hset.trans hids (by simp)⟩
  | tables next ih => exact ih _ h
  | setTables heap next ih =>
    obtain ⟨ids, hids⟩ := ih (m := { m with heap }) h
    have hset : Mints [] m [] { m with heap } := .quiet .start rfl rfl
    exact ⟨ids, hset.trans hids (by simp)⟩
  | load chunk file next ih =>
    obtain ⟨ids, hids⟩ := ih _ (m := (m.load chunk file).2) h
    have hloaded : Mints [] m [] (m.load chunk file).2 := .quiet .start rfl rfl
    exact ⟨ids, hloaded.trans hids (by simp)⟩
  | call f args next ih =>
    simp only [Host.run] at h
    split at h
    · cases h
    · next outcome m₁ hcall =>
      obtain ⟨called, hcalled⟩ := hinner f args m outcome m₁ hcall
      obtain ⟨ids, hids⟩ := ih _ h
      exact ⟨called ++ ids, hcalled.trans hids (by simp)⟩

/-- **What a turn records**: the frames with which it goes on are those it began with and new
ones. -/
def Recorded (own : List FrameId) (m : Machine) (t : Turn) : Prop :=
  ∃ ids, Mints own m ids t.machine ∧ ∀ f ∈ t.stack, f ∈ own ++ ids

/-- Every branch of a turn has a record, whatever the hook replies. -/
def Records (own : List FrameId) (m : Machine) (t : Attended Turn) : Prop :=
  t.Yields (fun _ _ => True) (fun _ => True) (Recorded own m)

section Turns

variable {inner : InnerCall} {m m₁ : Machine} {own ids stack : List FrameId} {current : FrameId}
  {callers : List FrameId}

theorem records_goOn (h : Mints own m ids m₁) (hmine : ∀ f ∈ stack, f ∈ own ++ ids) :
    Records own m (.done (.goOn stack m₁)) := ⟨ids, h, hmine⟩

theorem records_finish (h : Mints own m ids m₁) (result : RunResult) :
    Records own m (.done (.finish result m₁)) := ⟨ids, h, by simp [Turn.stack]⟩

theorem failTurn_records (h : Mints own m ids m₁) (hmine : ∀ f ∈ stack, f ∈ own ++ ids)
    (e : ExecError) : Records own m (m₁.failTurn stack e) := by
  refine .ofExcept (fun t ht => ?_) fun _ _ => trivial
  obtain ⟨p, hunwind, rfl⟩ := exists_of_map_eq_ok ht
  obtain ⟨entries, -, rfl⟩ := exists_of_map_eq_ok hunwind
  -- the trace is rendered, and then the frames of the run are dropped
  exact ⟨ids, h.abandon hmine _, by simp [Turn.stack]⟩

theorem leaveTurn_records (h : Mints own m ids m₁)
    (hmine : ∀ f ∈ current :: callers, f ∈ own ++ ids) (values : List Value) :
    Records own m (m₁.leaveTurn current callers values) := by
  have hdrop : Mints own m ids (m₁.dropFrame current) := h.drop (hmine _ List.mem_cons_self)
  unfold leaveTurn
  cases callers with
  | nil => exact records_finish hdrop _
  | cons caller callers =>
    have hcallers : ∀ f ∈ caller :: callers, f ∈ own ++ ids :=
      fun f hf => hmine f (List.mem_cons_of_mem _ hf)
    dsimp only
    split
    · trivial
    · next b hb =>
      exact records_goOn (hdrop.store (hcallers _ List.mem_cons_self) ⟨b, hb⟩ _) hcallers

theorem enterTurn_records (h : Mints own m ids m₁) {frame : FrameId}
    (hmine : ∀ f ∈ frame :: stack, f ∈ own ++ ids) : Records own m (m₁.enterTurn stack frame) := by
  unfold enterTurn
  dsimp only
  split
  · exact fun _ _ => records_finish (h.abandon hmine none) _
  · exact records_goOn h hmine

/-- The branches of a turn have records. -/
theorem branches_record (hinner : InnerMints inner) {a : Activation}
    (ha : m.frame? current = some a) :
    Branches inner m current callers a (fun _ _ => True) (fun _ => True)
      (Recorded (current :: callers) m) fun m₁ => ∃ ids, Mints (current :: callers) m ids m₁ where
  -- along every branch the frames entered so far are numbered in order
  start := ⟨[], .start⟩
  held := fun pc =>
    records_finish (.store .start (List.mem_append_left _ List.mem_cons_self) ⟨a, ha⟩ _) _
  stored := by
    intro m' a' effect hstays
    have hlive : m'.frame? current = some a :=
      (congrArg (·.get? current) hstays.frames).trans ha
    exact ⟨[], .store (.quiet .start hstays.frames hstays.nextFrame)
      (List.mem_append_left _ List.mem_cons_self) ⟨a, hlive⟩ a'⟩
  worked := by
    rintro body m₁ result m₂ ⟨ids, h⟩ hbody
    obtain ⟨called, hcalled⟩ := host_run_mints hinner body hbody
    exact ⟨ids ++ called, h.trans hcalled (by simp)⟩
  stopped := fun _ _ _ _ _ => trivial
  placed := by
    rintro m₁ b base c values ⟨ids, h⟩ hb
    exact ⟨ids, h.store (List.mem_append_left _ List.mem_cons_self) ⟨b, hb⟩ _⟩
  lost := fun _ _ _ => trivial
  goesOn := fun m₁ ⟨ids, h⟩ => records_goOn h fun _ => List.mem_append_left _
  overflows := trivial
  fails := fun m₁ e ⟨ids, h⟩ => failTurn_records h (fun _ => List.mem_append_left _) e
  leaves := fun m₁ values ⟨ids, h⟩ _ => leaveTurn_records h (fun _ => List.mem_append_left _) values
  enters := by
    intro i closure _ _ _ m₁
    -- the caller's activation is stored when the new frame is there
    have hlive : ∃ b, (m.enter closure (a.arguments i)).2.frame? current = some b := by
      obtain ⟨b, -, -, hframes⟩ := frame?_enter m closure (a.arguments i)
      rw [hframes]
      split
      · exact ⟨b, rfl⟩
      · exact ⟨a, ha⟩
    have h : Mints (current :: callers) m [m.nextFrame] m₁ :=
      (Mints.enter .start closure (a.arguments i)).store
        (List.mem_append_left _ List.mem_cons_self) hlive _
    intro reply _
    cases reply with
    | some e => exact failTurn_records h (fun _ => List.mem_append_left _) _
    | none =>
      refine enterTurn_records h fun f hf => ?_
      rcases List.mem_cons.mp hf with rfl | hf
      · exact List.mem_append_right _ List.mem_cons_self
      · exact List.mem_append_left _ hf

/-- **Every turn has a record**, on any stack. -/
theorem turn_mints (hinner : InnerMints inner) (m : Machine) (stack : List FrameId) :
    Records stack m (turn inner m stack) := by
  cases stack with
  | nil => exact records_finish .start _
  | cons current callers =>
    cases ha : m.frame? current with
    | none =>
      simp only [turn, ha]
      trivial
    | some a => exact (branches_record hinner ha).turn ha

end Turns

/-! ### Runs and calls -/

section Runs

variable {σ : Type} {hook : Hook σ} {fuel : Nat} {m m' : Machine} {stack : List FrameId}
  {r : RunResult} {s s' : σ}

/-- What a run records, given that calls made by host functions do. -/
theorem run_mints_of (hinner : ∀ n < fuel, InnerMints fun f args m => (call n f args m).detach)
    (h : (run fuel stack m).run hook s = .ok ((r, m'), s')) : ∃ ids, Mints stack m ids m' := by
  induction fuel generalizing stack m s with
  | zero => cases h
  | succ fuel ih =>
    rw [run_succ] at h
    obtain ⟨t, s₁, hturn, hrest⟩ := run_bind_eq_ok.mp h
    obtain ⟨ids, hids, hstack⟩ :=
      (turn_mints (hinner fuel (Nat.lt_succ_self fuel)) m stack).run_ok (fun _ _ => trivial) hturn
    cases t with
    | goOn stack' m₁ =>
      -- the frames of the next turn are of this run, old or new
      obtain ⟨more, hmore⟩ := ih (fun n hn => hinner n (Nat.lt_succ_of_lt hn)) hrest
      exact ⟨ids ++ more, hids.trans hmore hstack⟩
    | finish result m₁ =>
      cases hrest
      exact ⟨ids, hids⟩

/-- **A call touches no frame that was there before it**, whatever the hook replies. -/
theorem call_mints {f : Value} {args : List Value}
    (h : (call fuel f args m).run hook s = .ok ((r, m'), s')) : ∃ ids, Mints [] m ids m' := by
  induction fuel using Nat.strong_induction_on generalizing σ f args m r m' s s' with
  | h fuel ih =>
    -- the calls of host functions have a smaller budget, and a hook of their own
    have hinner : ∀ n < fuel, InnerMints fun f args m => (call n f args m).detach := by
      intro n hn f args m r m' hcall
      exact ih n hn (run_alone_of_detach hcall)
    cases fuel with
    | zero => cases h
    | succ fuel =>
      cases hf : m.callable? f with
      | none =>
        rw [call_none hf] at h
        cases h
        exact ⟨[], .start⟩
      | some callable =>
        cases callable with
        | closure closure =>
          rw [call_closure hf (fits_of_run hf h)] at h
          obtain ⟨ids, hids⟩ := run_mints_of (fun n hn => hinner n (Nat.lt_succ_of_lt hn)) h
          exact ⟨[m.nextFrame] ++ ids, Mints.trans (.enter .start closure args) hids (by simp)⟩
        | host body =>
          rw [call_host hf] at h
          obtain ⟨result, m₁, r', hbody, -, heq⟩ := hostCall_eq_ok.mp h
          cases heq
          exact host_run_mints (hinner fuel (Nat.lt_succ_self fuel)) (body args) hbody

theorem innerMints_call (fuel : Nat) : InnerMints fun f args m => (call fuel f args m).detach := by
  intro f args m r m' h
  exact call_mints (run_alone_of_detach h)

/-- **A run touches no frame that was there before it and is not on its stack.** -/
theorem run_mints (h : (run fuel stack m).run hook s = .ok ((r, m'), s')) :
    ∃ ids, Mints stack m ids m' :=
  run_mints_of (fun n _ => innerMints_call n) h

end Runs

end BytecodeDebugger.Machine
