import BytecodeDebugger.Proofs.Session.Calls
import BytecodeDebugger.Proofs.Session.Resumption

/-!
# How often a call stops

A call that is debugged stops at most as often as it executes instructions without a debugger. The
reason is that between two stops the instruction of the first one runs: with `i` instructions behind
it, a call that stands at a stop has stopped `i + 1` times at most, and the instruction ahead is one
more that it will execute.

The call is compared with the same call made without a debugger after all calls before it, which have
to be replayed for that (`Machine.callAll`). Unlike in the theorem on transparency nothing is asked of
the host functions: an error that brought an index along makes tracebacks differ, and nothing else.

Main statements:

* `Paced.steady` — the number of stops is bounded at every moment, whatever operations are performed,
  reports of errors included;
* `KeepsPace.stops_le` — what the bound says.
-/

namespace BytecodeDebugger

open Machine (Walks)

/-! ### Counting stops -/

/-- How many of the visits are stops. -/
def stopCount (vs : List Visit) : Nat := vs.countP fun v => v.engine.shouldSuspend v.site

section Counting

variable {vs : List Visit}

theorem stopCount_append (vs vs' : List Visit) :
    stopCount (vs ++ vs') = stopCount vs + stopCount vs' := List.countP_append

theorem stopCount_eq_zero (h : ∀ v ∈ vs, ¬v.Held) : stopCount vs = 0 :=
  List.countP_eq_zero.mpr fun v hv hheld => h v hv ((Visit.held_iff v).mpr hheld)

/-- A run stops once at most. -/
theorem stopCount_run {passed : List Visit} (hunheld : ∀ u ∈ passed, ¬u.Held) (v : Visit) :
    stopCount (passed ++ [v]) ≤ 1 := by
  rw [stopCount_append, stopCount_eq_zero hunheld, Nat.zero_add]
  exact List.countP_le_length

/-- Visits of which the first is no stop are more than their stops. -/
theorem stopCount_lt_length (hne : vs ≠ []) (hfirst : ∀ v ∈ vs.head?, ¬v.Held) :
    stopCount vs < vs.length := by
  cases vs with
  | nil => exact absurd rfl hne
  | cons v vs =>
    have hv : stopCount [v] = 0 := stopCount_eq_zero fun u hu => by
      rw [List.mem_singleton.mp hu]
      exact hfirst v rfl
    have hrest : stopCount vs ≤ vs.length := List.countP_le_length
    have hsplit : stopCount (v :: vs) = stopCount [v] + stopCount vs := stopCount_append [v] vs
    rw [hsplit, hv, List.length_cons]
    omega

end Counting

/-! ### The latest call -/

theorem startedCalls_nil_mono {h h' : List Happening} (hp : h <+: h') (h' : startedCalls h' = []) :
    startedCalls h = [] := by
  obtain ⟨rest, rfl⟩ := hp
  rw [startedCalls_append] at h'
  exact (List.append_eq_nil_iff.mp h').1

theorem visited_mono {h h' : List Happening} (hp : h <+: h') : visited h <+: visited h' := by
  obtain ⟨rest, rfl⟩ := hp
  rw [visited_append]
  exact List.prefix_append _ _

/-- A re-entry starts no call. -/
theorem startedCalls_reenter {σ : Type} (I : Interpreter σ) (s : Session σ) :
    startedCalls (Chronicle.reenter I s).happenings = [] := by
  unfold Chronicle.reenter
  dsimp only
  split
  · rfl
  · exact (congrArg startedCalls (Chronicle.happenings_bind_pure _ _)).trans (calls_consulted _).2

section Latest

variable {h extra before before' during during' : List Happening} {c c' : DeferredCall}

/-- What happens without a call being started comes after the latest call. -/
theorem split_latest (hextra : startedCalls extra = [])
    (heq : h ++ extra = before ++ .started c :: during) :
    ∃ earlier, h = before ++ .started c :: earlier ∧ during = earlier ++ extra := by
  -- the call that started last lies in the first part, since none starts in the second
  rcases List.append_eq_append_iff.mp heq with ⟨a, -, hsplit⟩ | ⟨a, hsplit, hrest⟩
  · -- the call would be among what happens later
    rw [hsplit, startedCalls_append] at hextra
    simp [startedCalls] at hextra
  · cases a with
    | nil =>
      rw [List.nil_append] at hrest
      rw [← hrest] at hextra
      cases hextra
    | cons x earlier =>
      cases hrest
      exact ⟨earlier, hsplit, rfl⟩

/-- There is one latest call. -/
theorem latest_unique (hd : startedCalls during = []) (hd' : startedCalls during' = [])
    (heq : before ++ .started c :: during = before' ++ .started c' :: during') :
    before = before' ∧ c = c' ∧ during = during' := by
  have hfirst : (before ++ [.started c]) ++ during = before' ++ .started c' :: during' := by
    rw [List.append_assoc]
    exact heq
  obtain ⟨earlier, hbefore, rfl⟩ := split_latest hd hfirst
  rw [startedCalls_append, hd, List.append_nil] at hd'
  -- the call before is the last that happens up to there
  rcases List.eq_nil_or_concat earlier with rfl | ⟨earlier', x, rfl⟩
  · obtain ⟨rfl, hcall⟩ := List.append_inj' hbefore rfl
    cases hcall
    exact ⟨rfl, rfl, rfl⟩
  · rw [List.concat_eq_append] at hbefore hd'
    have hbefore' : before ++ [.started c] = (before' ++ .started c' :: earlier') ++ [x] := by
      rw [hbefore, List.append_assoc, List.cons_append]
    obtain ⟨-, hlast⟩ := List.append_inj' hbefore' rfl
    cases hlast
    rw [startedCalls_append] at hd'
    simp [startedCalls] at hd'

end Latest

/-! ### The calls without a debugger -/

namespace Machine

variable {start m m₀ m₁ m' : Machine} {calls : List DeferredCall} {c : DeferredCall}

/-- **The calls lead to this machine** when they are made without a debugger, but for the
traceback. -/
def LeadsTo (start : Machine) (calls : List DeferredCall) (m : Machine) : Prop :=
  ∃ k results m₀, callAll k calls start = .ok (results, m₀) ∧ m.untraced = m₀.untraced

/-- Another call, made after the others. -/
theorem LeadsTo.snoc (h : start.LeadsTo calls m) {x : RunResult × Machine}
    (hcall : ∃ k, (call k c.function c.args m).detach = .ok x) (hsame : m'.untraced = x.2.untraced) :
    start.LeadsTo (calls ++ [c]) m' := by
  obtain ⟨k, results, m₀, hcalls, hm⟩ := h
  obtain ⟨k', hcall⟩ := hcall
  obtain ⟨m₁, hcall', hm₁⟩ := detach_call_untraced hm hcall
  exact ⟨_, _, m₁, callAll_snoc hcalls hcall', hsame.trans hm₁.symm⟩

/-- Wherever the calls lead, they lead to this machine. -/
theorem LeadsTo.unique (h : start.LeadsTo calls m) {k : Nat} {results : List RunResult}
    (hcalls : callAll k calls start = .ok (results, m')) : m'.untraced = m.untraced := by
  obtain ⟨k₀, results₀, m₀, hcalls₀, hm⟩ := h
  -- two budgets are compared at the greater of them
  have hleft := callAll_mono (Nat.le_max_left k₀ k) hcalls₀
  have hright := callAll_mono (Nat.le_max_right k₀ k) hcalls
  rw [hleft] at hright
  cases hright
  exact hm.symm

namespace Entered

variable {n i : Nat} {stack : List FrameId} (h : m₀.Entered c n i stack m)

include h

/-- Where the rest of a call leads, the call leads. -/
theorem whole {k : Nat} {x : RunResult × Machine} (hrest : (run k stack m).detach = .ok x) :
    ∃ k, (call k c.function c.args m₀).detach = .ok x := by
  obtain ⟨closure, hcallable, hfits, hwalks⟩ := h
  obtain ⟨k', hk'⟩ := hwalks.whole hrest
  refine ⟨k' + 1, ?_⟩
  rw [call_closure hcallable hfits]
  exact hk'

/-- A call that ends also ends from where it has led. -/
theorem rest {k : Nat} {x : RunResult × Machine}
    (hcall : (call k c.function c.args m₀).detach = .ok x) :
    ∃ k', (run k' stack m).detach = .ok x := by
  obtain ⟨closure, hcallable, hfits, hwalks⟩ := h
  cases k with
  | zero => cases hcall
  | succ k =>
    rw [call_closure hcallable hfits] at hcall
    obtain ⟨k', -, hk'⟩ := hwalks.rest hcall
    exact ⟨k', hk'⟩

theorem walked {n' i' : Nat} {stack' : List FrameId} (hwalks : Walks n' i' stack m stack' m') :
    m₀.Entered c (n + n') (i + i') stack' m' := by
  obtain ⟨closure, hcallable, hfits, hbefore⟩ := h
  exact ⟨closure, hcallable, hfits, hbefore.trans hwalks⟩

/-- The instructions of the rest come on top of those that ran already. -/
theorem instructions_le (hb : m₀.Bounded) (k : Nat) :
    ∃ k', i + (run k stack m).instructions ≤ (call k' c.function c.args m₀).instructions := by
  obtain ⟨closure, hcallable, hfits, hwalks⟩ := h
  obtain ⟨k', hk'⟩ := hwalks.instructions_le (Runs.entered hb closure c.args) (by simp) k
  refine ⟨k' + 1, ?_⟩
  rw [call_closure hcallable hfits]
  exact hk'

end Entered

end Machine

/-- **The stops of a re-entry**, with the one at which it begins, are no more than the instructions
that are left. -/
theorem Session.Stopped.stopCount_lt {s : Session Machine} {callers : List FrameId} {v : Visit}
    (h : s.Stopped callers v) (fuel : Nat) {vs : List Visit}
    (hvs : vs <+: visited (Chronicle.reenter (Machine.interpreter fuel) s).happenings) :
    stopCount vs < (Machine.run (fuel + 1) (v.site.frame :: callers) s.vm).instructions := by
  cases vs with
  | nil =>
    -- the instruction at which it stopped is left in any case
    have hone := Machine.instructions_of_ahead h.rests.runs h.ahead
    have hmore := Machine.run_below (Nat.le_add_left 1 fuel) (v.site.frame :: callers) s.vm
    exact Nat.lt_of_lt_of_le hone hmore.instructions_le
  | cons u vs =>
    have hpassing := passing_reentry fuel h.rests (by simp)
    have hmore := Machine.run_below (Nat.le_add_right fuel 1) (v.site.frame :: callers) s.vm
    -- what is visited first is passed, so that one visit at least is no stop
    have hfirst : ∀ w ∈ (u :: vs).head?, ¬w.Held := by
      intro w hw
      cases hw
      have hhead := h.first fuel
      obtain ⟨rest, hrest⟩ := hvs
      rw [← hrest] at hhead
      obtain ⟨-, heq⟩ := Option.ite_none_right_eq_some.mp hhead.symm
      cases heq
      exact h.passes
    calc stopCount (u :: vs) < (u :: vs).length := stopCount_lt_length (by simp) hfirst
      _ ≤ (visited (Chronicle.reenter (Machine.interpreter fuel) s).happenings).length :=
        hvs.length_le
      _ ≤ (Machine.run fuel (v.site.frame :: callers) s.vm).instructions := hpassing.length_le
      _ ≤ _ := hmore.instructions_le

/-! ### The invariant -/

/-- **The latest call stopped no more often than it executes instructions** without a debugger, after
the calls before it. -/
def KeepsPace (start : Machine) (h : List Happening) : Prop :=
  ∀ before c during, h = before ++ .started c :: during → startedCalls during = [] →
    ∃ m k, start.LeadsTo (startedCalls before) m ∧
      stopCount (visited during) ≤ (Machine.call k c.function c.args m).instructions

namespace KeepsPace

variable {start m : Machine} {h before during : List Happening} {c : DeferredCall}

theorem of_latest (hleads : start.LeadsTo (startedCalls before) m)
    (hduring : startedCalls during = []) {k : Nat}
    (hcount : stopCount (visited during) ≤ (Machine.call k c.function c.args m).instructions) :
    KeepsPace start (before ++ .started c :: during) := by
  intro before' c' during' heq hduring'
  obtain ⟨rfl, rfl, rfl⟩ := latest_unique hduring hduring' heq
  exact ⟨m, k, hleads, hcount⟩

/-- What happens without a visit or a call changes nothing. -/
theorem extend {extra : List Happening} (hp : KeepsPace start h) (hextra : startedCalls extra = [])
    (hvisited : visited extra = []) : KeepsPace start (h ++ extra) := by
  intro before c during heq hd
  obtain ⟨earlier, rfl, rfl⟩ := split_latest hextra heq
  rw [startedCalls_append, hextra, List.append_nil] at hd
  rw [visited_append, hvisited, List.append_nil]
  exact hp before c earlier rfl hd

/-- **The number of stops in a call**, at any moment of it. -/
theorem stops_le (h : KeepsPace start (before ++ .started c :: during))
    (hlatest : startedCalls during = []) :
    ∃ k results m, Machine.callAll k (startedCalls before) start = .ok (results, m) ∧
      (∃ k, stopCount (visited during) ≤ (Machine.call k c.function c.args m).instructions) ∧
      ∀ k x, (Machine.call k c.function c.args m).detach = .ok x →
        stopCount (visited during) ≤ (Machine.call k c.function c.args m).instructions := by
  obtain ⟨m₀, k₀, ⟨k, results, m, hcalls, hsame⟩, hcount⟩ := h before c during rfl hlatest
  rw [Machine.instructions_call_untraced hsame] at hcount
  refine ⟨k, results, m, hcalls, ⟨k₀, hcount⟩, fun k x hcall => ?_⟩
  exact Nat.le_trans hcount (Machine.instructions_call_le hcall k₀)

end KeepsPace

/-- **The latest call is under way**: so far it executed a number of instructions, and at most once
more than that it stopped. -/
inductive Underway (start : Machine) (h : List Happening) (stack : List FrameId) (m : Machine) :
    Prop where
  | intro (before : List Happening) (c : DeferredCall) (during : List Happening) (m₀ : Machine)
    (n i : Nat) (split : h = before ++ .started c :: during) (latest : startedCalls during = [])
    (leads : start.LeadsTo (startedCalls before) m₀) (bounded : m₀.Bounded)
    (entered : m₀.Entered c n i stack m) (count : stopCount (visited during) ≤ i + 1) :
    Underway start h stack m

namespace Underway

variable {start m m' : Machine} {h extra : List Happening} {stack stack' : List FrameId}
  (hu : Underway start h stack m) (hextra : startedCalls extra = [])

include hu hextra

/-- Fewer stops follow than instructions are left. -/
theorem keepsPace {k : Nat}
    (hcount : stopCount (visited extra) < (Machine.run k stack m).instructions) :
    KeepsPace start (h ++ extra) := by
  obtain ⟨before, c, during, m₀, n, i, rfl, latest, leads, bounded, entered, count⟩ := hu
  obtain ⟨k', hk'⟩ := entered.instructions_le bounded k
  rw [List.append_assoc, List.cons_append]
  refine .of_latest leads (k := k') ?_ ?_
  · rw [startedCalls_append, latest, hextra, List.append_nil]
  · rw [visited_append, stopCount_append]
    omega

/-- The call goes on, by at least as many instructions as it stops. -/
theorem goesOn {n i : Nat} (hwalks : Walks n i stack m stack' m')
    (hcount : stopCount (visited extra) ≤ i) : Underway start (h ++ extra) stack' m' := by
  obtain ⟨before, c, during, m₀, n₀, i₀, rfl, latest, leads, bounded, entered, count⟩ := hu
  refine .intro before c (during ++ extra) m₀ (n₀ + n) (i₀ + i) ?_ ?_ leads bounded
    (entered.walked hwalks) ?_
  · rw [List.append_assoc, List.cons_append]
  · rw [startedCalls_append, latest, hextra, List.append_nil]
  · rw [visited_append, stopCount_append]
    omega

/-- Where the rest of the call leads, the calls lead. -/
theorem ended {k : Nat} {x : RunResult × Machine} (hrest : (Machine.run k stack m).detach = .ok x)
    (hsame : m'.untraced = x.2.untraced) : start.LeadsTo (startedCalls (h ++ extra)) m' := by
  obtain ⟨before, c, during, m₀, n, i, rfl, latest, leads, bounded, entered, count⟩ := hu
  have hcalls : startedCalls ((before ++ .started c :: during) ++ extra) =
      startedCalls before ++ [c] := by
    rw [startedCalls_append, startedCalls_append, hextra, List.append_nil]
    exact congrArg (startedCalls before ++ c :: ·) latest
  rw [hcalls]
  exact leads.snoc (entered.whole hrest) hsame

end Underway

/-- **The number of stops is bounded so far**; and the session is between two calls, or stopped in the
latest. -/
structure Paced (start : Machine) (h : List Happening) (s : Session Machine) : Prop where
  keeps : KeepsPace start h
  stands : s.Stands (start.LeadsTo (startedCalls h) s.vm) fun v callers =>
    Underway start h (v.site.frame :: callers) s.vm

namespace Paced

variable {start : Machine} {h : List Happening} {s : Session Machine}

/-- Submitting a call starts none. -/
theorem submitted (hs : Paced start h s) (call : DeferredCall) :
    Paced start (h ++ [.submitted call])
      (s.setEngine { s.engine with waiting := s.engine.waiting ++ [call] }) := by
  refine ⟨hs.keeps.extend rfl rfl, (hs.stands.imp ?_ ?_).of_engine rfl rfl rfl⟩
  · intro hleads
    rw [startedCalls_append]
    exact (List.append_nil _).symm ▸ hleads
  · intro v callers hunderway
    exact hunderway.goesOn rfl (.refl _ _) (Nat.le_refl 0)

/-- **A call that is started** stops no more often than it executes instructions. -/
theorem started (hs : Paced start h s) (fuel : Nat) (call : DeferredCall)
    (waiting : List DeferredCall) (hrunning : s.engine.status = .running) :
    (Chronicle.start (Machine.interpreter fuel) s call waiting).Meets (KeepsPace start) h
      (Paced start) := by
  obtain ⟨hrests, hleads⟩ := hs.stands.running hrunning
  have hpassing := passing_start fuel call waiting hrests
  -- the call starts first of all, and nothing else starts while it runs
  obtain ⟨questions, hquestions, hnone⟩ : ∃ questions,
      (Chronicle.start (Machine.interpreter fuel) s call waiting).happenings =
        .started call :: questions ∧ startedCalls questions = [] :=
    ⟨_, Chronicle.happenings_start _ _ _ _, (calls_consulted _).2⟩
  have hvisited : visited (.started call :: questions) = visited questions := rfl
  rw [hquestions, hvisited] at hpassing
  -- the pace is kept at every moment of the call, with its own instructions as the bound
  have hmoments : ∀ moment,
      moment <+: (Chronicle.start (Machine.interpreter fuel) s call waiting).happenings →
        KeepsPace start (h ++ moment) := by
    intro moment hmoment
    rw [hquestions] at hmoment
    rcases List.prefix_cons_iff.mp hmoment with rfl | ⟨asked, rfl, hasked⟩
    · rw [List.append_nil]
      exact hs.keeps
    · refine .of_latest hleads (startedCalls_nil_mono hasked hnone) (k := fuel) ?_
      calc stopCount (visited asked) ≤ (visited asked).length := List.countP_le_length
        _ ≤ (visited questions).length := (visited_mono hasked).length_le
        _ ≤ _ := hpassing.length_le
  refine ⟨hmoments, fun s' hs' => ⟨hmoments _ (List.prefix_refl _), ?_⟩⟩
  have hreaches := start_reaches hrests hrunning hs'
  rw [hquestions, hvisited] at hreaches
  rw [hquestions]
  cases hreaches with
  | stopped n passed v callers _ stops way split unheld =>
    refine .stopped v callers stops (.intro h call questions s.vm n passed.length rfl hnone hleads
      hrests.runs.bounded way ?_)
    rw [split]
    exact Nat.le_add_left_of_le (stopCount_run unheld v)
  | free x₀ _ rests alone same =>
    refine .free rests ?_
    -- a call that ended joins those that are done
    have hcalls : startedCalls (h ++ .started call :: questions) = startedCalls h ++ [call] := by
      rw [startedCalls_append]
      exact congrArg (startedCalls h ++ call :: ·) hnone
    rw [hcalls]
    exact hleads.snoc alone same

/-- **A call that goes on** stops again only behind the instruction at which it stopped. -/
theorem reentered (hs : Paced start h s) (fuel : Nat) :
    (Chronicle.reenter (Machine.interpreter fuel) s).Meets (KeepsPace start) h (Paced start) := by
  have hnone := startedCalls_reenter (Machine.interpreter fuel) s
  cases hs.stands with
  | free rests leads =>
    rw [reenter_nil _ rests.paused rests.parked]
    exact .pure hs.keeps ⟨hs.keeps, .free rests.woken leads⟩
  | stopped v callers stops underway =>
    -- the stops so far and those of this run are bounded together by what the call still has to run
    have hmoments : ∀ moment,
        moment <+: (Chronicle.reenter (Machine.interpreter fuel) s).happenings →
          KeepsPace start (h ++ moment) := by
      intro moment hmoment
      have hstops := stops.stopCount_lt fuel (visited_mono hmoment)
      exact underway.keepsPace (startedCalls_nil_mono hmoment hnone) hstops
    refine ⟨hmoments, fun s' hs' => ⟨hmoments _ (List.prefix_refl _), ?_⟩⟩
    obtain ⟨hroom, hreaches⟩ := reenter_reaches stops.rests (by simp) hs'
    cases hreaches with
    | stopped n passed v' callers' _ stops' way split unheld =>
      refine .stopped v' callers' stops' (underway.goesOn hnone way ?_)
      rw [split]
      calc stopCount (passed ++ [v']) ≤ 1 := stopCount_run unheld v'
        _ ≤ passed.length := List.length_pos_iff.mpr (stops.passed_ne_nil hroom split stops'.held)
    | free x₀ _ rests alone same =>
      obtain ⟨k, halone⟩ := alone
      exact .free rests (underway.ended hnone halone same)

/-- **Whatever is done, a call stops no more often than it executes instructions.** -/
theorem steady (fuel : Nat) :
    Steady (Machine.interpreter fuel) True (KeepsPace start) (Paced start) where
  safe hs := hs.keeps
  tweak hs he := by
    obtain ⟨_, _, _, _, _, _, _, _, rfl, -⟩ := he
    exact ⟨hs.keeps, hs.stands.of_engine rfl rfl rfl⟩
  report _ hs he := by
    obtain ⟨_, _, rfl, -⟩ := he
    exact ⟨hs.keeps, hs.stands.of_engine rfl rfl rfl⟩
  announce location hs hsuspending := ⟨hs.keeps, hs.stands.announced _ location hsuspending⟩
  submit call hs := hs.submitted call
  start hs hrunning _ := hs.started fuel _ _ hrunning
  reenter hs := hs.reentered fuel

end Paced

end BytecodeDebugger
