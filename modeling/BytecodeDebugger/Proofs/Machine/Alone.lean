import BytecodeDebugger.Engine.Basic
import BytecodeDebugger.Proofs.Machine.Turn

/-!
# Calls without a debugger

What a program does on its own is what the same calls do one after another without a debugger
(`callAll`). An error of the program has no index there, because indices are given out by the
debugger; the only way in which one could come in is a host function that raises an error with an
index of its own. `Host.Unindexed` says that it does not.

Main statements:

* `call_unindexed` — errors that come out of calls without a debugger have no index;
* `callAll_snoc` — calls followed by another call, each with a budget of its own, are calls;
* `callAll_append` — calls in two parts;
* `callAll_restores` — between calls there are no frames.
-/

namespace BytecodeDebugger

/-- An error without an index. A failure of the host never has one. -/
def ExecError.Unindexed : ExecError → Prop
  | .runtime e => e.index = none
  | .host _ => True

theorem ExecError.unindexed_through (e : ExecError) (entries : List StackEntry) :
    (e.through entries).Unindexed ↔ e.Unindexed := by
  cases e <;> exact Iff.rfl

/-- **The errors that a host function raises have no index**, if those of the calls that it makes have
none. -/
def Host.Unindexed : Host → Prop
  | .result _ => True
  | .raise e => e.Unindexed
  | .print _ next => next.Unindexed
  | .setGlobal _ _ next => next.Unindexed
  | .tables next => ∀ heap, (next heap).Unindexed
  | .setTables _ next => next.Unindexed
  | .load _ _ next => ∀ id, (next id).Unindexed
  | .call _ _ next => ∀ outcome : Except ExecError (List Value),
      (∀ e, outcome = .error e → e.Unindexed) → (next outcome).Unindexed

namespace Machine

open Attended

/-- **No host function of the machine raises an indexed error.** -/
def Unindexed (m : Machine) : Prop := ∀ body, m.Hosts body → body.Unindexed

theorem Unindexed.of_grows {m m' : Machine} (h : m.Unindexed) (hg : m.Grows m') : m'.Unindexed := by
  rintro body ⟨id, f, args, hf, rfl⟩
  exact h _ ⟨id, f, args, hg.hosts id f hf, rfl⟩

/-- Registering a host function that raises no indexed errors. -/
theorem Unindexed.register {m : Machine} (h : m.Unindexed) (name : String) {body : HostFunction}
    (hbody : ∀ args, (body args).Unindexed) : (m.register name body).Unindexed := by
  rintro _ ⟨id, f, args, hf, rfl⟩
  have hpush : (m.functions.push (.host body))[id]? = some (.host f) := hf
  rw [Array.getElem?_push] at hpush
  split at hpush
  · -- it is the new function
    cases hpush
    exact hbody args
  · -- any other was there before
    exact h _ ⟨id, f, args, hpush, rfl⟩

/-- A call made by a host function gives no indexed error. -/
def InnerUnindexed (inner : InnerCall) : Prop :=
  ∀ f args m r m', m.Bounded → m.Unindexed → inner f args m = .ok (r, m') →
    ∀ e, r = .error e → e.Unindexed

section Turns

variable {inner : InnerCall} {m m' : Machine} {ground : SortedMap FrameId Activation}
  {stack : List FrameId} {current : FrameId}

/-- The errors of a host function, with those of the calls that it makes. -/
theorem host_run_unindexed (hkeeps : InnerKeeps inner) (hinner : InnerUnindexed inner) {body : Host}
    (hbody : body.Unindexed) {m : Machine} (hb : m.Bounded) (hm : m.Unindexed)
    {r : Except ExecError (List Value)} (h : body.run inner m = .ok (r, m')) :
    ∀ e, r = .error e → e.Unindexed := by
  -- over what the host function does; what it passes on is unindexed if its calls are
  induction body generalizing m with
  | result values =>
    cases h
    intro e he
    cases he
  | raise error =>
    cases h
    intro e he
    cases he
    exact hbody
  | print line next ih =>
    have hstep : m.Grows { m with output := m.output.push line } := .of_eq rfl rfl
    exact ih hbody (m := { m with output := m.output.push line }) hb (hm.of_grows hstep) h
  | setGlobal name v next ih =>
    have hstep : m.Grows (m.setGlobal name v) := .of_eq rfl rfl
    exact ih hbody (m := m.setGlobal name v) hb (hm.of_grows hstep) h
  | tables next ih => exact ih _ (hbody m.heap) hb hm h
  | setTables heap next ih =>
    have hstep : m.Grows { m with heap } := .of_eq rfl rfl
    exact ih hbody (m := { m with heap }) hb (hm.of_grows hstep) h
  | load chunk file next ih =>
    have hstep : m.Grows (m.load chunk file).2 := .mint m _
    exact ih _ (hbody _) (m := (m.load chunk file).2) hb (hm.of_grows hstep) h
  | call f args next ih =>
    simp only [Host.run] at h
    split at h
    · cases h
    · next outcome m₁ hcall =>
      obtain ⟨hframes, hgrows⟩ := hkeeps f args m outcome m₁ hb hcall
      have houtcome := hinner f args m outcome m₁ hb hm hcall
      refine ih _ (hbody _ fun e he => ?_) (hb.of_frames hframes hgrows) (hm.of_grows hgrows) h
      -- the error that the host function sees is the one that came out of the call
      cases outcome with
      | ok outcome => cases he
      | error raised =>
        cases he
        exact houtcome _ rfl

/-- An error that ends a run has an index only if it had one when it was raised. -/
theorem failTurn_unindexed {error : ExecError} {t : Turn} (herror : error.Unindexed)
    (ht : (m.failTurn stack error).detach = .ok t) : ∀ e, t.error? = some e → e.Unindexed := by
  obtain ⟨e', m₁, hu, rfl⟩ := detach_failTurn ht
  unfold unwind at hu
  obtain ⟨entries, -, heq⟩ := exists_of_map_eq_ok hu
  cases heq
  intro e he
  cases he
  exact (ExecError.unindexed_through error entries).mpr herror

/-- **A turn without a debugger ends with no indexed error.** -/
theorem Tail.unindexed (hkeeps : InnerKeeps inner) (hinner : InnerUnindexed inner) (hm : m.Unindexed)
    {pc : Nat} {code : UInt8} {tail : Attended Turn} {t : Turn}
    (htail : Tail inner m ground stack current pc code tail) (ht : tail.detach = .ok t) :
    ∀ e, t.error? = some e → e.Unindexed := by
  cases htail with
  | stop reason => cases ht
  | lost reason m₁ => cases ht
  | done m₁ t' orderly moves success =>
    cases ht
    intro e he
    rw [success] at he
    cases he
  -- an error of the machine's own making has no index when there is no engine to give it one
  | overflow m₁ m₂ message =>
    cases ht
    intro e he
    cases he
    rfl
  | fault m₁ message =>
    have hraised : ExecError.Unindexed (.runtime ⟨message, [] ++ [⟨current, pc⟩], none⟩) := rfl
    exact failTurn_unindexed hraised ht
  | foreign m₁ error indexed raised =>
    -- such a host function is not among those of the machine
    obtain ⟨body, m₂, hbody, hgrows, hbounded, hrun⟩ := raised
    have hunindexed := host_run_unindexed hkeeps hinner (hm body hbody) hbounded
      (hm.of_grows hgrows) hrun _ rfl
    exact absurd hunindexed indexed
  | host m₁ error =>
    have hraised : (ExecError.host error).Unindexed := trivial
    exact failTurn_unindexed hraised ht

theorem turn_unindexed (hkeeps : InnerKeeps inner) (hinner : InnerUnindexed inner) (hm : m.Unindexed)
    (h : m.Runs ground stack) (hne : stack ≠ []) {t : Turn}
    (ht : (turn inner m stack).detach = .ok t) : ∀ e, t.error? = some e → e.Unindexed := by
  obtain ⟨current, callers, rfl⟩ := List.exists_cons_of_ne_nil hne
  obtain ⟨a, ha⟩ := h.live current List.mem_cons_self
  rcases turn_cases hkeeps h ha with ⟨-, htail⟩ | ⟨i, tail, -, htail, hturn⟩
  · exact htail.unindexed hkeeps hinner hm ht
  · rw [hturn] at ht
    exact htail.unindexed hkeeps hinner hm ht

end Turns

/-! ### Runs and calls -/

section Budgets

variable {m m' : Machine} {ground : SortedMap FrameId Activation} {stack : List FrameId}
  {f : Value} {args : List Value} {r : RunResult}

/-- What comes out of a run of turns, given what comes out of the calls of host functions. -/
theorem run_unindexed_of {fuel : Nat}
    (hinner : ∀ n < fuel, InnerUnindexed fun f args m => (call n f args m).detach)
    (hm : m.Unindexed) (h : m.Runs ground stack) (hne : stack ≠ [])
    (hrun : (run fuel stack m).detach = .ok (r, m')) : ∀ e, r = .error e → e.Unindexed := by
  -- over the turns, since only the last one has an error to tell of
  induction fuel generalizing stack m with
  | zero => cases hrun
  | succ fuel ih =>
    rw [run_succ] at hrun
    obtain ⟨t, ht, hrun⟩ := detach_bind_eq_ok.mp hrun
    have hkeeps := innerKeeps_call fuel
    have hturn := turn_unindexed hkeeps (hinner fuel (Nat.lt_succ_self fuel)) hm h hne ht
    obtain ⟨horderly, hgrows⟩ := turn_keeps hkeeps h hne ht
    cases t with
    | goOn stack' m₁ =>
      have hinner' : ∀ n < fuel, InnerUnindexed fun f args m => (call n f args m).detach :=
        fun n hn => hinner n (Nat.lt_succ_of_lt hn)
      exact ih hinner' (hm.of_grows hgrows) horderly.2 horderly.1 hrun
    | finish result m₁ =>
      cases hrun
      intro e he
      exact hturn e (by rw [he]; rfl)

/-- **An error that comes out of a call without a debugger has no index.** -/
theorem call_unindexed {fuel : Nat} (hb : m.Bounded) (hm : m.Unindexed)
    (hcall : (call fuel f args m).detach = .ok (r, m')) : ∀ e, r = .error e → e.Unindexed := by
  -- the budget of a call bounds the calls made in it, so that the induction is a strong one
  induction fuel using Nat.strong_induction_on generalizing f args m r m' with
  | h fuel ih =>
    -- the calls of host functions have a smaller budget
    have hinner : ∀ n < fuel, InnerUnindexed fun f args m => (call n f args m).detach :=
      fun n hn f args m r m' hb hm h => ih n hn hb hm h
    cases fuel with
    | zero => cases hcall
    | succ fuel =>
      cases hf : m.callable? f with
      | none =>
        rw [call_none hf] at hcall
        cases hcall
        intro e he
        cases he
        rfl
      | some callable =>
        cases callable with
        | closure closure =>
          rw [call_closure hf (fits_of_detach hf hcall)] at hcall
          have hinner' := fun n hn => hinner n (Nat.lt_succ_of_lt hn)
          exact run_unindexed_of hinner' (hm.of_grows (.enter m closure args))
            (Runs.entered hb closure args) (by simp) hcall
        | host body =>
          rw [call_host hf] at hcall
          obtain ⟨result, m₁, r', hbody, hrestamp, heq⟩ := detach_hostCall_eq_ok.mp hcall
          cases heq
          have hresult := host_run_unindexed (innerKeeps_call fuel)
            (hinner fuel (Nat.lt_succ_self fuel)) (hm _ (hosts_of_callable hf args)) hb hm hbody
          intro e he
          rcases restamp_cases result with ⟨hsame, -⟩ | ⟨message, passed, -, hraise⟩
          · rw [hsame] at hrestamp
            cases hrestamp
            cases result with
            | ok values => cases he
            | error raised =>
              cases he
              exact hresult _ rfl
          · -- raised anew without a debugger, it gets no index
            rw [hraise] at hrestamp
            cases hrestamp
            cases he
            rfl

/-! ### Calls one after another -/

/-- **Makes calls one after another without a debugger**, and collects what they come to. -/
def callAll (fuel : Nat) : List DeferredCall → Machine → Except Stop (List RunResult × Machine)
  | [], m => .ok ([], m)
  | c :: calls, m =>
    (call fuel c.function c.args m).detach.bind fun x =>
      (callAll fuel calls x.2).map fun y => (x.1 :: y.1, y.2)

theorem callAll_cons {fuel : Nat} {c : DeferredCall} {calls : List DeferredCall}
    {x : List RunResult × Machine} :
    callAll fuel (c :: calls) m = .ok x ↔ ∃ r m₁ results,
      (call fuel c.function c.args m).detach = .ok (r, m₁) ∧
      callAll fuel calls m₁ = .ok (results, x.2) ∧ x.1 = r :: results := by
  have hdef : callAll fuel (c :: calls) m = (call fuel c.function c.args m).detach.bind fun x =>
      (callAll fuel calls x.2).map fun y => (x.1 :: y.1, y.2) := rfl
  rw [hdef]
  constructor
  · intro h
    cases hcall : (call fuel c.function c.args m).detach with
    | error reason =>
      rw [hcall] at h
      cases h
    | ok y =>
      rw [hcall] at h
      obtain ⟨z, hrest, rfl⟩ := exists_of_map_eq_ok h
      exact ⟨y.1, y.2, z.1, rfl, hrest, rfl⟩
  · rintro ⟨r, m₁, results, hcall, hrest, hx⟩
    obtain ⟨collected, final⟩ := x
    cases hx
    rw [hcall]
    change (callAll fuel calls m₁).map (fun y => (r :: y.1, y.2)) = .ok (r :: results, final)
    rw [hrest]
    rfl

/-- What calls come to does not depend on the budget. -/
theorem callAll_mono {fuel fuel' : Nat} (hle : fuel ≤ fuel') {calls : List DeferredCall}
    {x : List RunResult × Machine} (h : callAll fuel calls m = .ok x) :
    callAll fuel' calls m = .ok x := by
  induction calls generalizing m x with
  | nil => exact h
  | cons c calls ih =>
    obtain ⟨r, m₁, results, hcall, hrest, hx⟩ := callAll_cons.mp h
    exact callAll_cons.mpr ⟨r, m₁, results, detach_call_mono hle hcall, ih hrest, hx⟩

/-- **Calls followed by another call**, each with a budget of its own, are calls. -/
theorem callAll_snoc {fuel fuel' : Nat} {c : DeferredCall} {calls : List DeferredCall}
    {results : List RunResult} {m₁ : Machine} (h : callAll fuel calls m = .ok (results, m₁))
    (hcall : (call fuel' c.function c.args m₁).detach = .ok (r, m')) :
    callAll (max fuel fuel') (calls ++ [c]) m = .ok (results ++ [r], m') := by
  induction calls generalizing m results with
  | nil =>
    cases h
    -- along the calls that come first
    have hcall' := detach_call_mono (Nat.le_max_right fuel fuel') hcall
    exact callAll_cons.mpr ⟨r, m', [], hcall', rfl, rfl⟩
  | cons d calls ih =>
    obtain ⟨r₀, m₀, rest, hfirst, hrest, hresults⟩ := callAll_cons.mp h
    cases hresults
    have hfirst' := detach_call_mono (Nat.le_max_left fuel fuel') hfirst
    exact callAll_cons.mpr ⟨r₀, m₀, rest ++ [r], hfirst', ih hrest, rfl⟩

/-- Calls are made in two parts. -/
theorem callAll_append {fuel : Nat} {calls calls' : List DeferredCall}
    {x : List RunResult × Machine} (h : callAll fuel (calls ++ calls') m = .ok x) :
    ∃ results m₁ results', callAll fuel calls m = .ok (results, m₁) ∧
      callAll fuel calls' m₁ = .ok (results', x.2) := by
  induction calls generalizing m x with
  | nil => exact ⟨[], m, x.1, rfl, h⟩
  | cons c calls ih =>
    obtain ⟨r, m₀, rest, hcall, hrest, -⟩ := callAll_cons.mp h
    obtain ⟨results, m₁, results', hfirst, hsecond⟩ := ih hrest
    exact ⟨r :: results, m₁, results', callAll_cons.mpr ⟨r, m₀, results, hcall, hfirst, rfl⟩,
      hsecond⟩

/-- **Between calls there are no frames.** -/
theorem callAll_restores {fuel : Nat} {calls : List DeferredCall} {results : List RunResult}
    (hframes : m.frames = .empty) (h : callAll fuel calls m = .ok (results, m')) :
    m'.frames = .empty ∧ m.Grows m' := by
  induction calls generalizing m results with
  | nil =>
    cases h
    exact ⟨hframes, .refl _⟩
  | cons c calls ih =>
    obtain ⟨r, m₁, rest, hcall, hrest, -⟩ := callAll_cons.mp h
    obtain ⟨-, hframes₁, -, hgrows⟩ := call_restores (.of_empty hframes) hcall
    obtain ⟨hframes', hgrows'⟩ := ih (hframes₁.trans hframes) hrest
    exact ⟨hframes', hgrows.trans hgrows'⟩

end Budgets

end Machine

end BytecodeDebugger
