import BytecodeDebugger.Proofs.Machine.Stack
import BytecodeDebugger.Proofs.Machine.Visits

/-!
# How far a run has come

A run that is held up has taken some of the turns that it takes without a debugger, and no others
(`Walks`). What is left of it is known from that: it leads where the whole run leads, it needs a
budget that is smaller by the turns taken, and together with the instructions that ran already it
executes those of the whole run.

Every turn asks about one instruction at most, the one ahead of the innermost frame
(`Machine.ahead`). So the visits of a run under the debugger are no more than the instructions it
executes without one, and only the last of them can be a stop, because a stop ends the run.

Main statements:

* `run_walks`, `call_walks` — a run under the debugger that was held up walked up to its stop;
* `run_visits_le`, `call_visits_le` — the visits of a run, whether it ends or not;
* `run_finishes`, `call_finishes` — a run that ends without a debugger ends with one, at the same
  budget.
-/

namespace BytecodeDebugger.Machine

open Attended

variable {m m' m₁ : Machine} {ground : SortedMap FrameId Activation}
  {stack stack' stack₁ : List FrameId} {current : FrameId} {callers : List FrameId}
  {inner : InnerCall} {e e₁ e' : Engine}

/-! ### The instruction ahead -/

/-- **The instruction ahead of a run**, if its innermost frame has one left. -/
def ahead (m : Machine) : List FrameId → Option Site
  | [] => none
  | current :: _ => (m.frame? current).bind fun a =>
    a.closure.proto.instructions[a.pc]?.map (siteOf current a)

theorem ahead_cons {a : Activation} (ha : m.frame? current = some a) (callers : List FrameId) :
    m.ahead (current :: callers) = a.closure.proto.instructions[a.pc]?.map (siteOf current a) := by
  simp only [ahead, ha, Option.bind_some]

/-- A turn visits the instruction ahead. -/
theorem visits_ahead (hinner : InnerKeeps inner) (h : m.Runs ground (current :: callers))
    (e : Engine) :
    visits ((turn inner m (current :: callers)).consultations Engine.reply e) =
      (m.ahead (current :: callers)).toList.map (Visit.mk e) := by
  obtain ⟨a, ha⟩ := h.live current List.mem_cons_self
  rw [visits_turn hinner h ha e, ahead_cons ha]
  cases a.closure.proto.instructions[a.pc]? <;> rfl

/-- A turn executes the instruction ahead. -/
theorem instructions_turn (hinner : InnerKeeps inner) (h : m.Runs ground (current :: callers)) :
    (turn inner m (current :: callers)).instructions =
      (m.ahead (current :: callers)).toList.length := by
  obtain ⟨a, ha⟩ := h.live current List.mem_cons_self
  rw [ahead_cons ha]
  rcases turn_cases hinner h ha with ⟨hi, htail⟩ | ⟨i, tail, hi, htail, hturn⟩
  · rw [hi, htail.asksNoSite.instructions]
    rfl
  · rw [hi, hturn]
    change 1 + tail.instructions = 1
    rw [htail.asksNoSite.instructions]

/-! ### Walking -/

/-- **`n` turns, with `i` instructions, lead from one stack and machine to another** without a
debugger, and the run is not over. -/
inductive Walks : Nat → Nat → List FrameId → Machine → List FrameId → Machine → Prop where
  | refl (stack : List FrameId) (m : Machine) : Walks 0 0 stack m stack m
  | turn {n i fuel : Nat} {stack stack₁ stack' : List FrameId} {m m₁ m' : Machine}
    (first : (turn (fun f args m => (call fuel f args m).detach) m stack).detach =
      .ok (.goOn stack₁ m₁))
    (rest : Walks n i stack₁ m₁ stack' m') :
    Walks (n + 1) ((m.ahead stack).toList.length + i) stack m stack' m'

namespace Walks

variable {n n' i i' : Nat}

theorem trans (h : Walks n i stack m stack₁ m₁) (h' : Walks n' i' stack₁ m₁ stack' m') :
    Walks (n + n') (i + i') stack m stack' m' := by
  induction h with
  | refl stack m =>
    rw [Nat.zero_add, Nat.zero_add]
    exact h'
  | turn first rest ih =>
    rw [Nat.succ_add, Nat.add_assoc]
    exact .turn first (ih h')

/-- A turn executes one instruction at most. -/
theorem instructions_le_turns (h : Walks n i stack m stack' m') : i ≤ n := by
  induction h with
  | refl stack m => exact Nat.le_refl 0
  | turn first rest ih =>
    rw [Nat.add_comm]
    exact Nat.add_le_add ih Option.length_toList_le

/-- A walk keeps the frames in order, and a turn lays one frame on top at most. -/
theorem keeps (h : Walks n i stack m stack' m') (hruns : m.Runs ground stack) (hne : stack ≠ []) :
    m'.Runs ground stack' ∧ stack' ≠ [] ∧ m.Grows m' ∧ stack'.length ≤ stack.length + n := by
  -- over the turns: the stack grows by at most one frame in each
  induction h with
  | refl stack m => exact ⟨hruns, hne, .refl m, Nat.le_refl _⟩
  | @turn n i fuel stack stack₁ stack' m m₁ m' first rest ih =>
    obtain ⟨⟨hne₁, hruns₁⟩, hgrows⟩ := turn_keeps (innerKeeps_call fuel) hruns hne first
    obtain ⟨hruns', hne', hgrows', hlength⟩ := ih hruns₁ hne₁
    obtain ⟨current, callers, rfl⟩ := List.exists_cons_of_ne_nil hne
    obtain ⟨a, ha⟩ := hruns.live current List.mem_cons_self
    -- the turn enters a frame, leaves one or stays
    have hstep : stack₁.length ≤ callers.length + 2 := by
      cases turn_stack ha first rfl with
      | stays => exact Nat.le_succ _
      | enters => exact Nat.le_refl _
      | leaves => exact Nat.le_add_right _ _
    refine ⟨hruns', hne', hgrows.trans hgrows', ?_⟩
    rw [List.length_cons]
    omega

/-- Where the rest leads, the whole run leads. -/
theorem whole (h : Walks n i stack m stack' m') {k : Nat} {x : RunResult × Machine}
    (hrest : (run k stack' m').detach = .ok x) : ∃ k, (run k stack m).detach = .ok x := by
  induction h with
  | refl stack m => exact ⟨k, hrest⟩
  | turn first rest ih =>
    obtain ⟨k', hk'⟩ := ih hrest
    exact ⟨_, detach_run_goOn first hk'⟩

/-- **A run that ends also ends from where a walk has led**, with the budget that is left. -/
theorem rest (h : Walks n i stack m stack' m') {k : Nat} {x : RunResult × Machine}
    (hrun : (run k stack m).detach = .ok x) :
    ∃ k', k = n + k' ∧ (run k' stack' m').detach = .ok x := by
  induction h generalizing k with
  | refl stack m => exact ⟨k, (Nat.zero_add k).symm, hrun⟩
  | @turn n i fuel stack stack₁ stack' m m₁ m' first rest ih =>
    cases k with
    | zero => cases hrun
    | succ k =>
      rw [run_succ] at hrun
      obtain ⟨t, ht, hrun⟩ := detach_bind_eq_ok.mp hrun
      -- at a budget for both the turn is the same
      have hleft := (turn_below (extends_call (Nat.le_max_left fuel k)) m stack).detach_eq first
      have hright := (turn_below (extends_call (Nat.le_max_right fuel k)) m stack).detach_eq ht
      rw [hleft] at hright
      cases hright
      obtain ⟨k', rfl, hk'⟩ := ih hrun
      exact ⟨k', by omega, hk'⟩

/-- **The instructions of the rest** come on top of those that ran already. -/
theorem instructions_le (h : Walks n i stack m stack' m') (hruns : m.Runs ground stack)
    (hne : stack ≠ []) (k : Nat) :
    ∃ k', i + (run k stack' m').instructions ≤ (run k' stack m).instructions := by
  -- over the turns, each with fuel of its own; the larger of the two is enough for both
  induction h with
  | refl stack m => exact ⟨k, Nat.le_of_eq (Nat.zero_add _)⟩
  | @turn n i fuel stack stack₁ stack' m m₁ m' first rest ih =>
    obtain ⟨⟨hne₁, hruns₁⟩, -⟩ := turn_keeps (innerKeeps_call fuel) hruns hne first
    obtain ⟨k₁, hk₁⟩ := ih hruns₁ hne₁
    obtain ⟨current, callers, rfl⟩ := List.exists_cons_of_ne_nil hne
    have hturn := (turn_below (extends_call (Nat.le_max_left fuel k₁)) m
      (current :: callers)).detach_eq first
    have hmore := (run_below (Nat.le_max_right fuel k₁) stack₁ m₁).instructions_le
    refine ⟨max fuel k₁ + 1, ?_⟩
    rw [run_succ, instructions_bind, hturn, instructions_turn (innerKeeps_call _) hruns]
    change _ ≤ _ + (run (max fuel k₁) stack₁ m₁).instructions
    omega

end Walks

/-- A call that ends executes all its instructions. -/
theorem instructions_call_le {k : Nat} {f : Value} {args : List Value} {x : RunResult × Machine}
    (hcall : (call k f args m).detach = .ok x) (k' : Nat) :
    (call k' f args m).instructions ≤ (call k f args m).instructions := by
  have hmore := (call_below (Nat.le_max_left k' k) f args m).instructions_le
  have hall := (call_below (Nat.le_max_right k' k) f args m).instructions_eq hcall
  exact Nat.le_trans hmore (Nat.le_of_eq hall)

/-- A run that has an instruction ahead executes it. -/
theorem instructions_of_ahead (h : m.Runs ground (current :: callers)) {site : Site}
    (hahead : m.ahead (current :: callers) = some site) :
    1 ≤ (run 1 (current :: callers) m).instructions := by
  rw [run_succ, instructions_bind, instructions_turn (innerKeeps_call _) h, hahead]
  exact Nat.le_add_right _ _

/-! ### The visits of a run -/

/-- While a run goes on, nothing is held up. -/
theorem Attends.unheld (h : Attends inner m current callers e (.goOn stack m₁) e')
    {site : Site} (hahead : m.ahead (current :: callers) = some site) : ¬Visit.Held ⟨e, site⟩ := by
  rw [Visit.held_iff]
  cases h with
  | passed a i _ ha hi hpasses =>
    rw [ahead_cons ha, hi] at hahead
    cases hahead
    exact Bool.eq_false_iff.mp hpasses
  | left a _ ha hi =>
    rw [ahead_cons ha, hi] at hahead
    cases hahead

/-- The visits of a run are that of its first turn and those of what follows. -/
theorem visits_run_succ (fuel : Nat) (h : m.Runs ground (current :: callers)) (e : Engine) :
    visits ((run (fuel + 1) (current :: callers) m).consultations Engine.reply e) =
      (m.ahead (current :: callers)).toList.map (Visit.mk e) ++
        match (turn (fun f args m => (call fuel f args m).detach) m (current :: callers)).run
            Engine.reply e with
        | .ok (t, e₁) => visits ((follow fuel t).consultations Engine.reply e₁)
        | .error _ => [] := by
  rw [run_succ, consultations_bind, visits_append, visits_ahead (innerKeeps_call fuel) h]
  cases (turn (fun f args m => (call fuel f args m).detach) m (current :: callers)).run
    Engine.reply e <;> rfl

/-- **Visits of a run under the debugger**: they are no more than `bound`, and none that is followed
by another is a stop. -/
structure Passing (bound : Nat) (vs : List Visit) : Prop where
  length_le : vs.length ≤ bound
  unheld : vs.IsChain fun v _ => ¬v.Held

theorem Passing.mono {bound bound' : Nat} {vs : List Visit} (h : Passing bound vs)
    (hle : bound ≤ bound') : Passing bound' vs :=
  ⟨Nat.le_trans h.length_le hle, h.unheld⟩

/-- The visit of a turn is the only one. -/
theorem Passing.only (e : Engine) (site : Option Site) :
    Passing site.toList.length (site.toList.map (Visit.mk e)) := by
  refine ⟨by simp, ?_⟩
  cases site with
  | none => exact .nil
  | some site => exact .singleton _

/-- A visit that is no stop, if there is one, and then others. -/
theorem Passing.followed {bound : Nat} {vs : List Visit} (h : Passing bound vs) (site : Option Site)
    (hunheld : ∀ s ∈ site, ¬Visit.Held ⟨e, s⟩) :
    Passing (site.toList.length + bound) (site.toList.map (Visit.mk e) ++ vs) := by
  cases site with
  | none =>
    rw [Option.toList_none, List.length_nil, Nat.zero_add]
    exact h
  | some site =>
    -- the visit in front was not held up, whatever comes next
    refine ⟨?_, List.isChain_cons.mpr ⟨fun _ _ => hunheld site rfl, h.unheld⟩⟩
    have hlength := h.length_le
    simp only [Option.toList_some, List.map_cons, List.map_nil, List.length_append, List.length_cons,
      List.length_nil]
    omega

/-- **The visits of a run**, whether it ends or not. -/
theorem run_visits_le {fuel : Nat} (h : m.Runs ground stack) (hne : stack ≠ []) :
    Passing (run fuel stack m).instructions
      (visits ((run fuel stack m).consultations Engine.reply e)) := by
  -- turn by turn; the run goes on without a debugger as long as it does with one
  induction fuel generalizing stack m e with
  | zero => exact ⟨Nat.le_refl _, .nil⟩
  | succ fuel ih =>
    obtain ⟨current, callers, rfl⟩ := List.exists_cons_of_ne_nil hne
    have hinner := innerKeeps_call fuel
    have honly := Passing.only e (m.ahead (current :: callers))
    rw [visits_run_succ fuel h, run_succ, instructions_bind, instructions_turn hinner h]
    cases hturn : (turn (fun f args m => (call fuel f args m).detach) m (current :: callers)).run
        Engine.reply e with
    | error reason =>
      rw [List.append_nil]
      exact honly.mono (Nat.le_add_right _ _)
    | ok p =>
      obtain ⟨t, e₁⟩ := p
      -- the visit of this turn counts one, if there is one
      have hattends := turn_attends hinner h hturn
      cases t with
      | finish result m₁ =>
        change Passing _ (_ ++ [])
        rw [List.append_nil]
        exact honly.mono (Nat.le_add_right _ _)
      | goOn stack₁ m₁ =>
        have halone := hattends.goes_on.2
        obtain ⟨⟨hne₁, hruns₁⟩, -⟩ := turn_keeps hinner h hne halone
        rw [halone]
        exact (ih hruns₁ hne₁).followed _ fun site hsite => hattends.unheld hsite

/-- The visits of a call. -/
theorem call_visits_le {fuel : Nat} {f : Value} {args : List Value} (hb : m.Bounded) :
    Passing (call fuel f args m).instructions
      (visits ((call fuel f args m).consultations Engine.reply e)) := by
  cases fuel with
  | zero => exact ⟨Nat.le_refl _, .nil⟩
  | succ fuel =>
    cases hf : m.callable? f with
    | none =>
      rw [call_none hf]
      exact ⟨Nat.zero_le _, .nil⟩
    | some callable =>
      cases callable with
      | closure closure =>
        -- without room for its registers the call visits nothing
        by_cases hfits : closure.Fits
        · rw [call_closure hf hfits]
          exact run_visits_le (Runs.entered hb closure args) (by simp)
        · rw [call_overflow hf hfits]
          exact ⟨Nat.zero_le _, .nil⟩
      | host body =>
        rw [call_host hf, (asksNoSite_hostCall _ _ _).visits e]
        exact ⟨Nat.zero_le _, .nil⟩

/-! ### Up to a stop -/

/-- **How a run under the debugger ends**, seen from its visits `vs`: it walked up to the last of them
and was held up there, or none of them is a stop. -/
inductive Walked (stack : List FrameId) (m : Machine) (e : Engine) (vs : List Visit) :
    RunResult × Machine → Engine → Prop where
  | held (n : Nat) (passed : List Visit) (v : Visit) (callers : List FrameId) (m' : Machine)
    (walks : Walks n passed.length stack m (v.site.frame :: callers) m')
    (ahead : m'.ahead (v.site.frame :: callers) = some v.site) (works : e.Works v.engine)
    (held : v.Held) (split : vs = passed ++ [v]) (unheld : ∀ u ∈ passed, ¬u.Held) :
    Walked stack m e vs (.ok .suspended, m') (v.engine.hold v.site callers)
  | ended (x : RunResult × Machine) (e' : Engine) (unsuspended : x.1 ≠ .ok .suspended)
    (unheld : ∀ u ∈ vs, ¬u.Held) : Walked stack m e vs x e'

/-- What follows a turn that went on. -/
theorem Walked.after {fuel : Nat} {vs : List Visit} {x : RunResult × Machine}
    (hturn : (turn (fun f args m => (call fuel f args m).detach) m stack).detach =
      .ok (.goOn stack₁ m₁))
    (hwork : e.Works e₁) (hunheld : ∀ s ∈ m.ahead stack, ¬Visit.Held ⟨e, s⟩)
    (h : Walked stack₁ m₁ e₁ vs x e') :
    Walked stack m e ((m.ahead stack).toList.map (Visit.mk e) ++ vs) x e' := by
  -- none of the visits in the first turn is held up
  have hfirst : ∀ u ∈ (m.ahead stack).toList.map (Visit.mk e), ¬u.Held := by
    intro u hu
    obtain ⟨site, hsite, rfl⟩ := List.mem_map.mp hu
    exact hunheld site (Option.mem_toList.mp hsite)
  cases h with
  | held n passed v callers m' walks ahead works held split unheld =>
    -- the walk is one turn longer
    have hwalks : Walks (n + 1) ((m.ahead stack).toList.map (Visit.mk e) ++ passed).length stack m
        (v.site.frame :: callers) m' := by
      rw [List.length_append, List.length_map]
      exact .turn hturn walks
    refine .held (n + 1) _ v callers m' hwalks ahead (hwork.trans works) held ?_ fun u hu => ?_
    · rw [split, List.append_assoc]
    · rcases List.mem_append.mp hu with hu | hu
      · exact hfirst u hu
      · exact unheld u hu
  | ended _ _ unsuspended unheld =>
    refine .ended x e' unsuspended fun u hu => ?_
    rcases List.mem_append.mp hu with hu | hu
    · exact hfirst u hu
    · exact unheld u hu

/-- **A turn that ends the run.** It is held up in front of its instruction, or nothing is. -/
theorem turn_walked {result : RunResult} (hinner : InnerKeeps inner)
    (h : m.Runs ground (current :: callers))
    (hturn : (turn inner m (current :: callers)).run Engine.reply e = .ok (.finish result m₁, e')) :
    Walked (current :: callers) m e ((m.ahead (current :: callers)).toList.map (Visit.mk e))
      (result, m₁) e' := by
  obtain ⟨b, hb⟩ := h.live current List.mem_cons_self
  -- without a debugger a turn that ends the run does not suspend it
  have horderly : ∀ t, (turn inner m (current :: callers)).detach = .ok t → t.Orderly ground :=
    fun t ht => (turn_keeps hinner h (by simp) ht).1
  cases turn_attends hinner h hturn with
  | held a i ha hi hheld =>
    have hahead : m.ahead (current :: callers) = some (siteOf current a i) := by
      rw [ahead_cons ha, hi]
      rfl
    rw [hahead]
    exact .held 0 [] ⟨e, siteOf current a i⟩ callers m (.refl _ m) hahead (.refl e)
      ((Visit.held_iff _).mpr hheld) rfl (by simp)
  | passed a i _ ha hi hpasses alone success =>
    refine .ended _ _ (horderly _ alone).1 fun u hu => ?_
    rw [ahead_cons ha, hi] at hu
    rw [List.mem_singleton.mp hu, Visit.held_iff]
    exact Bool.eq_false_iff.mp hpasses
  | left a _ ha hi alone success =>
    refine .ended _ _ (horderly _ alone).1 fun u hu => ?_
    rw [ahead_cons ha, hi] at hu
    cases hu
  | failed err _ x₀ e₁ l' alone alike works =>
    refine .ended _ _ (by simp) fun u hu => ?_
    -- a frame that is held up does not fail
    obtain ⟨site, hsite, rfl⟩ := List.mem_map.mp hu
    rw [Option.mem_toList, ahead_cons hb] at hsite
    obtain ⟨i, hi, rfl⟩ := Option.map_eq_some_iff.mp hsite
    rw [Visit.held_iff]
    intro hheld
    cases turn_suspended hb hi hheld hturn

/-- **A run under the debugger walks up to its first stop**, or is over without one. -/
theorem run_walks {fuel : Nat} (h : m.Runs ground stack) (hne : stack ≠ [])
    {x : RunResult × Machine} (hrun : (run fuel stack m).run Engine.reply e = .ok (x, e')) :
    Walked stack m e (visits ((run fuel stack m).consultations Engine.reply e)) x e' := by
  -- turn by turn, with the engine that the turns so far have left
  induction fuel generalizing stack m e with
  | zero => cases hrun
  | succ fuel ih =>
    obtain ⟨current, callers, rfl⟩ := List.exists_cons_of_ne_nil hne
    have hinner := innerKeeps_call fuel
    rw [visits_run_succ fuel h]
    rw [run_succ] at hrun
    obtain ⟨t, e₁, hturn, hrest⟩ := run_bind_eq_ok.mp hrun
    rw [hturn]
    cases t with
    | finish result m₁ =>
      cases hrest
      change Walked _ _ _ (_ ++ []) _ _
      rw [List.append_nil]
      exact turn_walked hinner h hturn
    | goOn stack₁ m₁ =>
      have hattends := turn_attends hinner h hturn
      obtain ⟨hwork, halone⟩ := hattends.goes_on
      obtain ⟨⟨hne₁, hruns₁⟩, -⟩ := turn_keeps hinner h hne halone
      exact (ih hruns₁ hne₁ hrest).after halone hwork fun site hsite => hattends.unheld hsite

/-- **A call under the debugger** is the run of a function, or is over at once. -/
theorem call_walks {fuel : Nat} {f : Value} {args : List Value} (hb : m.Bounded)
    {x : RunResult × Machine} (hcall : (call fuel f args m).run Engine.reply e = .ok (x, e')) :
    (∃ closure, m.callable? f = some (.closure closure) ∧
      Walked [m.nextFrame] (m.enter closure args).2 e
        (visits ((call fuel f args m).consultations Engine.reply e)) x e') ∨
    (visits ((call fuel f args m).consultations Engine.reply e) = [] ∧ x.1 ≠ .ok .suspended) := by
  cases fuel with
  | zero => cases hcall
  | succ fuel =>
    cases hf : m.callable? f with
    | none =>
      rw [call_none hf] at hcall ⊢
      cases hcall
      exact .inr ⟨rfl, by simp⟩
    | some callable =>
      cases callable with
      | closure closure =>
        have hfits := fits_of_run hf hcall
        rw [call_closure hf hfits] at hcall ⊢
        exact .inl ⟨closure, rfl, run_walks (Runs.entered hb closure args) (by simp) hcall⟩
      | host body =>
        rw [call_host hf] at hcall ⊢
        obtain ⟨result, m₁, r, -, -, rfl⟩ := hostCall_eq_ok.mp hcall
        refine .inr ⟨(asksNoSite_hostCall _ _ _).visits e, ?_⟩
        -- a host function is never held up
        cases r <;> simp [Except.map]

/-! ### Runs that end -/

/-- A failure that ends a run ends it with every hook, whatever the error is. -/
theorem failTurn_finishes {err : ExecError} {t : Turn} (h : (m.failTurn stack err).detach = .ok t)
    (err' : ExecError) (e : Engine) : ∃ x, (m.failTurn stack err').run Engine.reply e = .ok x := by
  obtain ⟨err₁, m₁, hu, -⟩ := detach_failTurn h
  obtain ⟨entries, hentries, -⟩ := exists_of_map_eq_ok hu
  simp only [failTurn, run_ofExcept, unwind, hentries]
  exact ⟨_, rfl⟩

theorem Tail.finishes {pc : Nat} {code : UInt8} {tail : Attended Turn} {t : Turn}
    (htail : Tail inner m ground stack current pc code tail) (ht : tail.detach = .ok t) (e : Engine) :
    ∃ x, tail.run Engine.reply e = .ok x := by
  cases htail with
  | stop reason => cases ht
  | lost reason m₁ => cases ht
  | done m₁ t' => exact ⟨_, rfl⟩
  | overflow m₁ m₂ message => exact ⟨_, rfl⟩
  | fault m₁ message => exact failTurn_finishes ht _ _
  | foreign m₁ err => exact failTurn_finishes ht _ _
  | host m₁ err => exact failTurn_finishes ht _ _

theorem turn_finishes (hinner : InnerKeeps inner) (h : m.Runs ground (current :: callers)) {t : Turn}
    (ht : (turn inner m (current :: callers)).detach = .ok t) (e : Engine) :
    ∃ x, (turn inner m (current :: callers)).run Engine.reply e = .ok x := by
  obtain ⟨a, ha⟩ := h.live current List.mem_cons_self
  rcases turn_cases hinner h ha with ⟨-, htail⟩ | ⟨i, tail, -, htail, hturn⟩
  · exact htail.finishes ht e
  · rw [hturn] at ht ⊢
    -- a frame that is held up is parked with its callers
    have hgate : ∀ decision e,
        ∃ x, (gate m current callers a tail decision).run Engine.reply e = .ok x := by
      intro decision e
      cases decision with
      | suspend pc =>
        simp only [gate, run_parkAll, run_done]
        exact ⟨_, rfl⟩
      | proceed => exact htail.finishes ht e
    exact hgate _ _

/-- **A run that ends without a debugger ends with one**, be it at a stop. -/
theorem run_finishes {k fuel : Nat} (hle : k ≤ fuel) (h : m.Runs ground stack) (hne : stack ≠ [])
    {x : RunResult × Machine} (halone : (run k stack m).detach = .ok x) (e : Engine) :
    ∃ y, (run fuel stack m).run Engine.reply e = .ok y := by
  -- over the budget that was enough without a debugger; it is enough with one
  induction k generalizing fuel stack m e with
  | zero => cases halone
  | succ k ih =>
    obtain ⟨fuel, rfl⟩ : ∃ n, fuel = n + 1 := ⟨fuel - 1, by omega⟩
    have hle := Nat.le_of_succ_le_succ hle
    obtain ⟨current, callers, rfl⟩ := List.exists_cons_of_ne_nil hne
    have hinner := innerKeeps_call fuel
    rw [run_succ] at halone
    obtain ⟨t, ht, hrest⟩ := detach_bind_eq_ok.mp halone
    have ht' := (turn_below (extends_call hle) m (current :: callers)).detach_eq ht
    obtain ⟨⟨t', e₁⟩, hturn⟩ := turn_finishes hinner h ht' e
    rw [run_succ]
    cases t' with
    | finish result m₁ => exact ⟨_, run_bind_eq_ok.mpr ⟨_, _, hturn, rfl⟩⟩
    | goOn stack₁ m₁ =>
      -- a turn that goes on with a debugger goes on without one
      have halone' := (turn_attends hinner h hturn).goes_on.2
      rw [ht'] at halone'
      cases halone'
      obtain ⟨⟨hne₁, hruns₁⟩, -⟩ := turn_keeps hinner h hne ht'
      obtain ⟨y, hy⟩ := ih hle hruns₁ hne₁ hrest e₁
      exact ⟨y, run_bind_eq_ok.mpr ⟨_, _, hturn, hy⟩⟩

/-- **A call that ends without a debugger ends with one.** -/
theorem call_finishes {k fuel : Nat} (hle : k ≤ fuel) (hb : m.Bounded) {f : Value}
    {args : List Value} {x : RunResult × Machine} (halone : (call k f args m).detach = .ok x)
    (e : Engine) : ∃ y, (call fuel f args m).run Engine.reply e = .ok y := by
  cases k with
  | zero => cases halone
  | succ k =>
    obtain ⟨fuel, rfl⟩ : ∃ n, fuel = n + 1 := ⟨fuel - 1, by omega⟩
    cases hf : m.callable? f with
    | none =>
      rw [call_none hf]
      exact ⟨_, rfl⟩
    | some callable =>
      cases callable with
      | closure closure =>
        have hfits := fits_of_detach hf halone
        rw [call_closure hf hfits] at halone ⊢
        exact run_finishes (Nat.le_of_succ_le_succ hle) (Runs.entered hb closure args) (by simp)
          halone e
      | host body =>
        have halone' := detach_call_mono hle halone
        rw [call_host hf] at halone' ⊢
        obtain ⟨result, m₁, r, hbody, -, -⟩ := detach_hostCall_eq_ok.mp halone'
        -- at most one question is asked behind the host function, and it is answered
        obtain ⟨⟨r', e₁⟩, hrestamp⟩ : ∃ y, (restamp result).run Engine.reply e = .ok y := by
          rcases restamp_cases result with ⟨hsame, -⟩ | ⟨message, passed, -, hraise⟩
          · rw [hsame]
            exact ⟨_, rfl⟩
          · rw [hraise]
            exact ⟨_, rfl⟩
        exact ⟨_, hostCall_eq_ok.mpr ⟨result, m₁, r', hbody, hrestamp, rfl⟩⟩

end BytecodeDebugger.Machine
