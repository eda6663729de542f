import BytecodeDebugger.Proofs.Machine.Failing

/-!
# Errors that cross host functions

A host function may call functions of the language, and those may call host functions again. When a call
inside fails and every host function on the way raises the error that it was given, the error comes out
through several runs, one in the other (`Machine.FailsThrough`).

A failure of the host comes out whole: each run adds where it stands to what the error has passed already.
An error of the program does not. It has no index in a run without a debugger, so that the instruction that
called the host function takes it for one that the host function made itself; it is raised anew, and what
it had passed is gone (`ExecError.kept`).

Main statements:

* `Moment.Fails.relayed` — what a run makes of an error that a host function raises again;
* `FailsThrough.ends` — how a call ends that fails through levels.
-/

namespace BytecodeDebugger

/-- Whether an error is one of the host. -/
def ExecError.isHost : ExecError → Bool
  | .runtime _ => false
  | .host _ => true

/-- What is kept of the trace of an error without an index when a host function raises it. -/
def ExecError.kept : ExecError → List StackEntry
  | .runtime _ => []
  | .host e => e.stack

/-- Whether a mishap is a failure of a host function. -/
def Mishap.isHost : Mishap → Bool
  | .host _ => true
  | _ => false

theorem ExecError.isHost_through (e : ExecError) (entries : List StackEntry) :
    (e.through entries).isHost = e.isHost := by
  cases e <;> rfl

theorem ExecError.kept_of_isHost {e : ExecError} (h : e.isHost = true) : e.kept = e.stack := by
  cases e with
  | runtime e => cases h
  | host e => rfl

theorem ExecError.kept_of_not_isHost {e : ExecError} (h : e.isHost = false) : e.kept = [] := by
  cases e with
  | runtime e => rfl
  | host e => cases h

/-! ### Host functions that raise what they are given -/

/-- **A host function relays an error**: of the calls that it makes one fails with this error, the call of
`f` in the machine `mc`, and in the end it raises the same error. -/
inductive Host.Relays (inner : InnerCall) (f : Value) (args : List Value) (mc : Machine)
    (e : ExecError) : Host → Machine → Machine → Prop where
  | print {line : String} {next : Host} {m m' : Machine}
    (rest : Relays inner f args mc e next { m with output := m.output.push line } m') :
    Relays inner f args mc e (.print line next) m m'
  | setGlobal {name : String} {v : Value} {next : Host} {m m' : Machine}
    (rest : Relays inner f args mc e next (m.setGlobal name v) m') :
    Relays inner f args mc e (.setGlobal name v next) m m'
  | tables {next : Heap → Host} {m m' : Machine}
    (rest : Relays inner f args mc e (next m.heap) m m') :
    Relays inner f args mc e (.tables next) m m'
  | setTables {heap : Heap} {next : Host} {m m' : Machine}
    (rest : Relays inner f args mc e next { m with heap } m') :
    Relays inner f args mc e (.setTables heap next) m m'
  | load {chunk : Chunk} {file : String} {next : FunctionId → Host} {m m' : Machine}
    (rest : Relays inner f args mc e (next (m.load chunk file).1) (m.load chunk file).2 m') :
    Relays inner f args mc e (.load chunk file next) m m'
  /-- an earlier call -/
  | before {g : Value} {xs : List Value} {next : Except ExecError (List Value) → Host}
    {m m₁ m' : Machine} {outcome : RunResult} (made : inner g xs m = .ok (outcome, m₁))
    (rest : Relays inner f args mc e (next (outcome.map Outcome.values)) m₁ m') :
    Relays inner f args mc e (.call g xs next) m m'
  | call {next : Except ExecError (List Value) → Host} {m₁ m' : Machine}
    (failed : inner f args mc = .ok (.error e, m₁))
    (raised : (next (.error e)).run inner m₁ = .ok (.error e, m')) :
    Relays inner f args mc e (.call f args next) mc m'

namespace Host.Relays

variable {inner : InnerCall} {f : Value} {args : List Value} {mc m m' : Machine} {e : ExecError}
  {body : Host}

theorem run_eq (h : body.Relays inner f args mc e m m') : body.run inner m = .ok (.error e, m') := by
  induction h with
  | print _ ih | setGlobal _ ih | tables _ ih | setTables _ ih | load _ ih => exact ih
  | before made _ ih =>
    rw [Host.run, made]
    exact ih
  | call failed raised =>
    rw [Host.run, failed]
    exact raised

theorem failed (h : body.Relays inner f args mc e m m') :
    ∃ m₁, inner f args mc = .ok (.error e, m₁) := by
  induction h with
  | print _ ih | setGlobal _ ih | tables _ ih | setTables _ ih | load _ ih | before _ _ ih => exact ih
  | call failed _ => exact ⟨_, failed⟩

/-- The machine in which the call is made has used the ids of its frames up. -/
theorem bounded (h : body.Relays inner f args mc e m m') (hinner : Machine.InnerKeeps inner)
    (hb : m.Bounded) : mc.Bounded := by
  induction h with
  | print _ ih | setGlobal _ ih | tables _ ih | setTables _ ih | load _ ih => exact ih hb
  | before made _ ih =>
    obtain ⟨hframes, hgrows⟩ := hinner _ _ _ _ _ hb made
    exact ih (hb.of_frames hframes hgrows)
  | call _ _ => exact hb

end Host.Relays

namespace Machine

open Attended

/-! ### One run -/

namespace Failure

/-- **Where a failure stands**: at its instruction, and its callers at the calls in which they wait. -/
def Stands (x : Failure) (entries : List StackEntry) : Prop :=
  ∃ waits, entries = ⟨x.frame, x.activation.pc⟩ :: waits ∧
    List.Forall₂ x.machine.Awaits x.callers waits

/-- **The instruction of a failure relays an error**: it calls a host function that does. -/
inductive Relays (x : Failure) (inner : InnerCall) (m : Machine) (f : Value) (args : List Value)
    (mc : Machine) (e : ExecError) : Prop where
  | host {m' : Machine} {a' : Activation} {body : Host} {base : Nat} {c : Int}
    (performed : m.perform { x.activation with pc := x.activation.pc + 1 } x.instruction =
      (m', a', .host body base c))
    (relays : body.Relays inner f args mc e (m'.setFrame x.frame a') x.machine) :
    Relays x inner m f args mc e

variable {x : Failure} {inner : InnerCall} {m mc : Machine} {f : Value} {args : List Value}
  {e error : ExecError} {σ : Type} {hook : Hook σ} {s s' : σ} {final : Machine}

theorem Relays.failed (h : x.Relays inner m f args mc e) :
    ∃ m₁, inner f args mc = .ok (.error e, m₁) := by
  obtain ⟨-, hbody⟩ := h
  exact hbody.failed

/-- **An error that is relayed is the mishap of the instruction**, and what it has passed is kept only if
it is one of the host. -/
theorem Relays.passed (h : x.Relays inner m f args mc e)
    (hraises : Raises inner m x.frame x.callers x.activation x.instruction x.mishap x.machine) :
    x.mishap.isHost = e.isHost ∧ x.mishap.passed? = some e.kept := by
  obtain ⟨frame, callers, a, i, mishap, m₁⟩ := x
  obtain ⟨hperformed, hrelays⟩ := h
  have hrun := hrelays.run_eq
  dsimp only at hperformed hrun hraises
  cases hraises with
  | fault performed | overflow performed =>
    -- the instruction calls a host function
    rw [hperformed] at performed
    cases performed
  | program performed raised | host performed raised =>
    rw [hperformed] at performed
    cases performed
    rw [hrun] at raised
    cases raised
    exact ⟨rfl, rfl⟩

/-- A run that ends with an error of an instruction keeps its kind. -/
theorem isHost_of_failTurn {stack : List FrameId}
    (h : (m.failTurn stack e).run hook s = .ok (.finish (.error error) final, s')) :
    error.isHost = e.isHost := by
  -- passing through frames adds to the stack of an error and leaves its kind
  simp only [failTurn, run_ofExcept] at h
  obtain ⟨t, ht, heq⟩ := exists_of_map_eq_ok h
  cases heq
  obtain ⟨⟨error', m'⟩, hunwind, hfinish⟩ := exists_of_map_eq_ok ht
  cases hfinish
  obtain ⟨entries, -, hthrough⟩ := exists_of_map_eq_ok hunwind
  cases hthrough
  exact e.isHost_through entries

/-- **A turn that fails ends with an error of the mishap's kind.** -/
theorem isHost_of_tail (h : x.tail.run hook s = .ok (.finish (.error error) final, s')) :
    error.isHost = x.mishap.isHost := by
  obtain ⟨frame, callers, a, i, mishap, m⟩ := x
  -- the report may add a stack entry, but an error stays of its kind
  cases mishap with
  | fault message =>
    change (m.reportFailed (frame :: callers) frame a.pc i.code (hook (.raise message) s).1).run hook
      (hook (.raise message) s).2 = _ at h
    simp only [reportFailed, run_ask] at h
    split at h
    · cases h
    · exact isHost_of_failTurn h
  | host failure => exact isHost_of_failTurn h
  | overflow entered =>
    simp only [tail, Mishap.tail, run_ask, reportDone] at h
    split at h
    · cases h
      rfl
    · exact isHost_of_failTurn h

end Failure

namespace Moment

variable {σ : Type} {hook : Hook σ} {p : Moment σ} {ground : SortedMap FrameId Activation}
  {x : Failure} {budget : Nat} {f : Value} {args : List Value} {mc : Machine} {e : ExecError}

/-- A failure that comes next ends the run with an error of its kind, which stands where the failure does
if it leaves a trace. -/
theorem Fails.ends (h : p.Fails hook x) (ht : Tracing hook) (hruns : p.machine.Runs ground p.stack)
    {own : List StackEntry} (hown : x.mishap.passed? = some own) :
    ∃ error final s' entries, p.rest hook = .ok ((.error error, final), s') ∧
      error.isHost = x.mishap.isHost ∧ x.Stands entries ∧ error.stack = own ++ entries := by
  obtain ⟨budget, -, hraises⟩ := h.raises
  rw [h.stack] at hruns
  have hraised := hraises.runs (innerKeeps_call budget) hruns h.frame hown
  obtain ⟨error, final, s', htail, htraced⟩ :=
    Failure.run_tail ht hraised hown (hook (.before x.site) p.state).2
  obtain ⟨waits, hstack, hawaits⟩ := htraced.trace
  exact ⟨error, final, s', _, h.rest_eq htail, Failure.isHost_of_tail htail, ⟨waits, rfl, hawaits⟩,
    hstack⟩

/-- **What a run makes of an error that a host function relays**: what is kept of it comes first, and then
where the run stands. -/
theorem Fails.relayed (h : p.Fails hook x) (ht : Tracing hook)
    (hruns : p.machine.Runs ground p.stack) (hspent : p.budget = budget + 1)
    (hrelays : x.Relays (fun f args m => (call budget f args m).detach) p.machine f args mc e) :
    ∃ error final s' entries, p.rest hook = .ok ((.error error, final), s') ∧
      error.isHost = e.isHost ∧ x.Stands entries ∧ error.stack = e.kept ++ entries := by
  obtain ⟨budget', hbudget, hraises⟩ := h.raises
  obtain rfl : budget' = budget := Nat.succ.inj (hbudget.symm.trans hspent)
  obtain ⟨hkind, hown⟩ := hrelays.passed hraises
  obtain ⟨error, final, s', entries, hrest, hisHost, hstands, hstack⟩ := h.ends ht hruns hown
  exact ⟨error, final, s', entries, hrest, hisHost.trans hkind, hstands, hstack⟩

/-- The machine in which a host function makes the call that fails has used the ids of its frames up. -/
theorem Fails.bounded (h : p.Fails hook x) (hruns : p.machine.Runs ground p.stack)
    (hrelays : x.Relays (fun f args m => (call budget f args m).detach) p.machine f args mc e) :
    mc.Bounded := by
  obtain ⟨hperformed, hbody⟩ := hrelays
  rw [h.stack] at hruns
  exact hbody.bounded (innerKeeps_call budget) (runs_perform hperformed (by simp) hruns h.frame).bounded

end Moment

/-! ### One run in the other -/

/-- **A call without a debugger fails through levels**, innermost first. In the innermost run an
instruction fails for a cause of its own; in the others the instruction that fails calls a host function,
which calls further in and relays the error. -/
inductive FailsThrough : Nat → Value → List Value → Machine → Mishap → List Failure → Prop where
  | raised {fuel : Nat} {f : Value} {args : List Value} {m : Machine} {p : Moment Unit} {x : Failure}
    (called : Moment.Called alone fuel f args m () p) (fails : p.Fails alone x) :
    FailsThrough fuel f args m x.mishap [x]
  | relayed {fuel budget : Nat} {f g : Value} {args xs : List Value} {m mc : Machine}
    {p : Moment Unit} {x : Failure} {e : ExecError} {cause : Mishap} {levels : List Failure}
    (called : Moment.Called alone fuel f args m () p) (fails : p.Fails alone x)
    (spent : p.budget = budget + 1)
    (relays : x.Relays (fun f args m => (call budget f args m).detach) p.machine g xs mc e)
    (nested : FailsThrough budget g xs mc cause levels) :
    FailsThrough fuel f args m cause (levels ++ [x])
  /-- a host function that is called by another one is no level -/
  | host {budget : Nat} {f g : Value} {args xs : List Value} {m mc m₁ : Machine} {body : HostFunction}
    {e : ExecError} {cause : Mishap} {levels : List Failure}
    (callee : m.callable? f = some (.host body))
    (relays : (body args).Relays (fun f args m => (call budget f args m).detach) g xs mc e m m₁)
    (nested : FailsThrough budget g xs mc cause levels) :
    FailsThrough (budget + 1) f args m cause levels

/-- Without a debugger an error is raised anew as one of its kind, and one of the host stays. -/
theorem detach_restamp (e : ExecError) :
    ∃ e' : ExecError, (restamp (.error e)).detach = .ok (.error e') ∧ e'.isHost = e.isHost ∧
      e'.kept = e.kept := by
  rcases restamp_cases (.error e) with ⟨hsame, -⟩ | ⟨message, passed, heq, hraise⟩
  · rw [hsame]
    exact ⟨e, rfl, rfl, rfl⟩
  · cases heq
    rw [hraise]
    exact ⟨_, rfl, rfl, rfl⟩

namespace FailsThrough

variable {fuel : Nat} {f : Value} {args : List Value} {m : Machine} {cause : Mishap}
  {levels : List Failure}

/-- A call fails with one error. -/
theorem error_unique {r : Except Stop (RunResult × Machine)} {e e' : ExecError} {m₁ : Machine}
    (h : r = .ok (.error e, m₁)) (h' : ∃ m₂, r = .ok (.error e', m₂)) : e = e' := by
  obtain ⟨m₂, h'⟩ := h'
  cases h.symm.trans h'
  rfl

/-- A call ends as what is left of its run does. -/
theorem detach_of_rest {p : Moment Unit} (hcalled : Moment.Called alone fuel f args m () p)
    {result : RunResult × Machine} (hrest : p.rest alone = .ok (result, ())) :
    (call fuel f args m).detach = .ok result := by
  have hrun := hcalled.rest_eq.trans hrest
  rw [run_alone] at hrun
  obtain ⟨r, hdetach, heq⟩ := exists_of_map_eq_ok hrun
  cases heq
  exact hdetach

/-- **How a call ends that fails through levels**: with an error of the cause's kind, and one of the host
lists what it had passed, and then where each level stands. -/
def Ends (fuel : Nat) (f : Value) (args : List Value) (m : Machine) (cause : Mishap)
    (levels : List Failure) : Prop :=
  ∃ error final, (call fuel f args m).detach = .ok (.error error, final) ∧
    error.isHost = cause.isHost ∧
    ∀ failure, cause = .host failure → ∃ parts, List.Forall₂ Failure.Stands levels parts ∧
      error.kept = failure.stack ++ parts.flatten

theorem ends_of_raised {p : Moment Unit} {x : Failure} (hb : m.Bounded)
    (called : Moment.Called alone fuel f args m () p) (fails : p.Fails alone x) :
    Ends fuel f args m x.mishap [x] := by
  cases hown : x.mishap.passed? with
  | none =>
    -- too many calls are in progress
    obtain ⟨frame, callers, a, i, mishap, machine⟩ := x
    cases mishap with
    | fault message | host failure => cases hown
    | overflow entered =>
      have htail : (Failure.tail ⟨frame, callers, a, i, .overflow entered, machine⟩).run alone () =
          .ok (.finish (.error (.runtime { message := "stack overflow" }))
            ({ machine with traceback := none }.abandon (entered :: frame :: callers)), ()) := rfl
      exact ⟨_, _, detach_of_rest called (fails.rest_eq htail), rfl, nofun⟩
  | some own =>
    obtain ⟨error, final, _, entries, hrest, hkind, hstands, hstack⟩ :=
      fails.ends tracing_alone (called.keeps hb) hown
    refine ⟨error, final, detach_of_rest called hrest, hkind, fun failure hcause => ?_⟩
    refine ⟨[entries], .cons hstands .nil, ?_⟩
    rw [hcause] at hown hkind
    cases hown
    rw [ExecError.kept_of_isHost hkind, hstack, List.flatten_singleton]

/-- One more run around the call is one more level. -/
theorem Ends.relayed {p : Moment Unit} {x : Failure} {budget : Nat} {g : Value} {xs : List Value}
    {mc : Machine} {e : ExecError} (hb : m.Bounded)
    (called : Moment.Called alone fuel f args m () p) (fails : p.Fails alone x)
    (spent : p.budget = budget + 1)
    (relays : x.Relays (fun f args m => (call budget f args m).detach) p.machine g xs mc e)
    (h : Ends budget g xs mc cause levels) : Ends fuel f args m cause (levels ++ [x]) := by
  obtain ⟨inner, final', hinner, hkind', hparts⟩ := h
  -- the error that comes out of the call inside is the one that is relayed
  obtain rfl : inner = e := error_unique hinner relays.failed
  obtain ⟨error, final, _, entries, hrest, hkind, hstands, hstack⟩ :=
    fails.relayed tracing_alone (called.keeps hb) spent relays
  refine ⟨error, final, detach_of_rest called hrest, hkind.trans hkind', fun failure hcause => ?_⟩
  obtain ⟨parts, hlevels, hkept⟩ := hparts failure hcause
  have hhost : error.isHost = true := by
    rw [hkind, hkind', hcause]
    rfl
  refine ⟨parts ++ [entries], List.rel_append hlevels (.cons hstands .nil), ?_⟩
  rw [ExecError.kept_of_isHost hhost, hstack, hkept, List.flatten_append, List.flatten_singleton,
    List.append_assoc]

/-- One more host function around the call adds nothing. -/
theorem Ends.host {budget : Nat} {g : Value} {xs : List Value} {mc m₁ : Machine} {body : HostFunction}
    {e : ExecError} (callee : m.callable? f = some (.host body))
    (relays : (body args).Relays (fun f args m => (call budget f args m).detach) g xs mc e m m₁)
    (h : Ends budget g xs mc cause levels) : Ends (budget + 1) f args m cause levels := by
  obtain ⟨inner, final', hinner, hkind', hparts⟩ := h
  obtain rfl : inner = e := error_unique hinner relays.failed
  obtain ⟨error, hrestamp, hkind, hkept⟩ := detach_restamp inner
  refine ⟨error, m₁, ?_, hkind.trans hkind', fun failure hcause => ?_⟩
  · rw [call_host callee]
    exact detach_hostCall_eq_ok.mpr ⟨_, m₁, _, relays.run_eq, hrestamp, rfl⟩
  · rw [hkept]
    exact hparts failure hcause

/-- **A call that fails through levels ends with an error that comes through them.** -/
theorem ends (h : FailsThrough fuel f args m cause levels) (hb : m.Bounded) :
    Ends fuel f args m cause levels := by
  -- from the innermost run outwards
  induction h with
  | raised called fails => exact ends_of_raised hb called fails
  | relayed called fails spent relays _ ih =>
    exact .relayed hb called fails spent relays (ih (fails.bounded (called.keeps hb) relays))
  | host callee relays _ ih => exact .host callee relays (ih (relays.bounded (innerKeeps_call _) hb))

end FailsThrough

/-! ### The run outside all others -/

/-- **A failure comes from inside**: its instruction relays the error of a call that fails through
levels. -/
inductive Failure.ComesFrom (x : Failure) (budget : Nat) (m : Machine) (cause : Mishap)
    (levels : List Failure) : Prop where
  | relayed {f : Value} {args : List Value} {mc : Machine} {e : ExecError}
    (relays : x.Relays (fun f args m => (call budget f args m).detach) m f args mc e)
    (nested : FailsThrough budget f args mc cause levels) : ComesFrom x budget m cause levels

/-- **What an error from inside shows**: if it is one of the host, what it had passed and then where each
level stands, from the inside out; any other shows nothing but where the outermost level stands. -/
structure Failure.Shows (x : Failure) (cause : Mishap) (levels : List Failure) (error : ExecError) :
    Prop where
  whole : ∀ failure, cause = .host failure → ∃ parts,
    List.Forall₂ Failure.Stands (levels ++ [x]) parts ∧ error.stack = failure.stack ++ parts.flatten
  outermost : cause.isHost = false → x.Stands error.stack

/-- **How a run ends whose failure comes from inside.** -/
theorem Moment.Fails.shows {σ : Type} {hook : Hook σ} {p : Moment σ}
    {ground : SortedMap FrameId Activation} {x : Failure} {budget : Nat} {cause : Mishap}
    {levels : List Failure} (h : p.Fails hook x) (ht : Tracing hook)
    (hruns : p.machine.Runs ground p.stack) (hspent : p.budget = budget + 1)
    (hfrom : x.ComesFrom budget p.machine cause levels) :
    ∃ error final s', p.rest hook = .ok ((.error error, final), s') ∧ error.stack ≠ [] ∧
      x.Shows cause levels error := by
  obtain ⟨relays, nested⟩ := hfrom
  -- the levels below end in the error that the host function passes on, and that decides this one
  obtain ⟨inner, final', hinner, hkind', hparts⟩ := nested.ends (h.bounded hruns relays)
  obtain rfl := FailsThrough.error_unique hinner relays.failed
  obtain ⟨error, final, s', entries, hrest, hkind, hstands, hstack⟩ :=
    h.relayed ht hruns hspent relays
  refine ⟨error, final, s', hrest, ?_, ?_, ?_⟩
  · obtain ⟨waits, hentries, -⟩ := hstands
    rw [hstack, hentries]
    exact List.append_ne_nil_of_right_ne_nil _ (List.cons_ne_nil _ _)
  · intro failure hcause
    obtain ⟨parts, hlevels, hkept⟩ := hparts failure hcause
    refine ⟨parts ++ [entries], List.rel_append hlevels (.cons hstands .nil), ?_⟩
    rw [hstack, hkept, List.flatten_append, List.flatten_singleton, List.append_assoc]
  · intro hcause
    rw [hstack, ExecError.kept_of_not_isHost (hkind'.trans hcause), List.nil_append]
    exact hstands

end Machine

end BytecodeDebugger
