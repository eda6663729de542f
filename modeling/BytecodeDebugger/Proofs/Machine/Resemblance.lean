import BytecodeDebugger.Proofs.Machine.Alone

/-!
# What the machine reports is never read

The machine keeps the lines that it printed and the traceback of its last error for whoever asks for
them. No instruction and no host function reads either. Machines that differ by these reports only
(`Machine.Resembles`) therefore do the same, and the reports stay related in the way in which they
were (`Reporting`), as long as printing keeps the relation and equal tracebacks are in it.

The debugger makes reports differ: an error that comes with an index may list one frame less in its
traceback than it does without a debugger, and whoever takes the printed lines on the way finds fewer
of them at the end.

Main statements:

* `Machine.Resembles.perform` — one instruction;
* `Machine.Resembles.turn` — one turn;
* `Machine.Resembles.run`, `Machine.Resembles.call`, `Machine.Resembles.runFrame` — runs, calls and
  frames that go on.
-/

namespace BytecodeDebugger

/-- **How the reports of two machines are related**: what they printed, and their tracebacks. -/
structure Reporting where
  printed : Array String → Array String → Prop
  traced : Option String → Option String → Prop
  push : ∀ {o o' : Array String} (line : String), printed o o' → printed (o.push line) (o'.push line)
  refl : ∀ t, traced t t

namespace Machine

/-- The machine with other reports. -/
def reporting (m : Machine) (o : Array String) (t : Option String) : Machine :=
  { m with output := o, traceback := t }

/-- **Machines that differ by their reports only**, and these are related. -/
inductive Resembles (R : Reporting) (m : Machine) : Machine → Prop where
  | intro {o : Array String} {t : Option String} (printed : R.printed m.output o)
      (traced : R.traced m.traceback t) : Resembles R m (m.reporting o t)

end Machine

/-- Turns that lead to the same, with machines that resemble each other. -/
inductive Turn.Resembles (R : Reporting) : Turn → Turn → Prop where
  | goOn (stack : List FrameId) {m m' : Machine} (h : m.Resembles R m') :
      Resembles R (.goOn stack m) (.goOn stack m')
  | finish (result : RunResult) {m m' : Machine} (h : m.Resembles R m') :
      Resembles R (.finish result m) (.finish result m')

namespace Machine

open Attended

/-! ### Instructions -/

section Instructions

variable (m : Machine) (a : Activation) (o : Array String) (t : Option String)

theorem capture_reporting (n : Nat) :
    (m.reporting o t).capture a n = ((m.capture a n).1.reporting o t, (m.capture a n).2) := by
  -- over the upvalues; a cell that is made is made in either machine under the same number
  induction n generalizing m a with
  | zero => rfl
  | succ n ih =>
    unfold capture
    cases a.closure.proto.instructions[a.pc]? with
    | none => rfl
    | some i =>
      dsimp only
      cases Op.ofCode i.code with
      | move =>
        have hrest := ih (m.newCell (a.register i.b.toNat)).2 { a with pc := a.pc + 1 }
        exact congrArg (fun x : Machine × Activation × Except String (List CellId) =>
          (x.1, x.2.1, x.2.2.map (m.cells.size :: ·))) hrest
      | getUpvalue =>
        cases hcell : upvalue { a with pc := a.pc + 1 } i.b with
        | error message => rfl
        | ok cell =>
          have hrest := ih m { a with pc := a.pc + 1 }
          exact congrArg (fun x : Machine × Activation × Except String (List CellId) =>
            (x.1, x.2.1, x.2.2.map (cell :: ·))) hrest
      | _ => rfl

variable {m a o t}

theorem orFault_reporting {β : Type} (x : Except String β)
    {f f' : β → Machine × Activation × Effect} (h : ∀ v, f' v = ((f v).1.reporting o t, (f v).2)) :
    orFault (m.reporting o t) a x f' = ((orFault m a x f).1.reporting o t, (orFault m a x f).2) := by
  cases x with
  | ok v => exact h v
  | error message => rfl

variable (m a o t)

theorem performCall_reporting (i : Instruction) :
    (m.reporting o t).performCall a i =
      ((m.performCall a i).1.reporting o t, (m.performCall a i).2) := by
  unfold performCall
  dsimp only
  -- what is callable does not depend on what was printed
  have hcallee : (m.reporting o t).callable? (a.register i.a.toNat) =
      m.callable? (a.register i.a.toNat) := rfl
  rw [hcallee]
  cases m.callable? (a.register i.a.toNat) with
  | none => rfl
  | some callee =>
    cases callee with
    | host body => rfl
    | closure closure =>
      dsimp only
      split <;> rfl

theorem performClosure_reporting (i : Instruction) :
    (m.reporting o t).performClosure a i =
      ((m.performClosure a i).1.reporting o t, (m.performClosure a i).2) := by
  unfold performClosure
  cases pick a.closure.proto.protos i.b with
  | none => rfl
  | some proto =>
    dsimp only
    rw [capture_reporting]
    exact orFault_reporting _ fun _ => rfl

/-- **No instruction reads the reports**, and none changes them. -/
theorem perform_reporting (i : Instruction) :
    (m.reporting o t).perform a i = ((m.perform a i).1.reporting o t, (m.perform a i).2) := by
  -- no instruction reads what was printed or traced
  cases hop : Op.ofCode i.code with
  | call =>
    simp only [perform, hop]
    exact performCall_reporting m a o t i
  | closure =>
    simp only [perform, hop]
    exact performClosure_reporting m a o t i
  | newTable =>
    simp only [perform, hop]
    rfl
  | move | loadBool | loadNil | jump | «return» | close | unknown code => simp only [perform, hop]
  | loadConstant | getUpvalue | getGlobal | setGlobal | setUpvalue =>
    simp only [perform, hop]
    exact orFault_reporting _ fun _ => rfl
  | getTable =>
    simp only [perform, hop]
    refine orFault_reporting _ fun key => ?_
    cases a.register i.b.toNat <;> rfl
  | setTable =>
    simp only [perform, hop]
    refine orFault_reporting _ fun key => orFault_reporting _ fun v => ?_
    cases a.register i.a.toNat with
    | table id =>
      dsimp only
      split <;> rfl
    | _ => rfl
  | add | sub | mul | div =>
    simp only [perform, hop]
    refine orFault_reporting _ fun v => orFault_reporting _ fun w => ?_
    cases v.toNumber? with
    | none => rfl
    | some x => cases w.toNumber? <;> rfl
  | equal =>
    simp only [perform, hop]
    exact orFault_reporting _ fun v => orFault_reporting _ fun w => rfl
  | less | lessEqual =>
    simp only [perform, hop]
    exact orFault_reporting _ fun v => orFault_reporting _ fun w => orFault_reporting _ fun _ => rfl

end Instructions

/-! ### Turns -/

variable {R : Reporting} {inner : InnerCall} {m m' : Machine}

/-- A call made by a host function does the same whatever was reported. -/
def InnerResembles (R : Reporting) (inner : InnerCall) : Prop :=
  ∀ f args {m m' : Machine}, m.Resembles R m' →
    Outcomes (Alongside (Machine.Resembles R)) (inner f args m) (inner f args m')

namespace Resembles

/-- **One instruction.** -/
theorem perform (h : m.Resembles R m') (a : Activation) (i : Instruction) :
    (m'.perform a i).2 = (m.perform a i).2 ∧
      (m.perform a i).1.Resembles R (m'.perform a i).1 := by
  cases h with
  | @intro o t hprinted htraced =>
    -- the machine itself is one with reports of its own, so that it keeps them
    have hkept : m.perform a i =
        ((m.perform a i).1.reporting m.output m.traceback, (m.perform a i).2) :=
      perform_reporting m a m.output m.traceback i
    have houtput : (m.perform a i).1.output = m.output := congrArg (fun x => x.1.output) hkept
    have htraceback : (m.perform a i).1.traceback = m.traceback :=
      congrArg (fun x => x.1.traceback) hkept
    rw [perform_reporting]
    exact ⟨rfl, .intro (houtput ▸ hprinted) (htraceback ▸ htraced)⟩

theorem printed (h : m.Resembles R m') : R.printed m.output m'.output := by
  cases h with
  | intro hprinted _ => exact hprinted

theorem frame? (h : m.Resembles R m') (frame : FrameId) : m'.frame? frame = m.frame? frame := by
  cases h
  rfl

theorem callable? (h : m.Resembles R m') (v : Value) : m'.callable? v = m.callable? v := by
  cases h
  cases v <;> rfl

theorem renderStack (h : m.Resembles R m') (stack : List StackEntry) :
    m'.renderStack stack = m.renderStack stack := by
  cases h
  rfl

theorem setFrame (h : m.Resembles R m') (frame : FrameId) (a : Activation) :
    (m.setFrame frame a).Resembles R (m'.setFrame frame a) := by
  cases h with
  | intro hprinted htraced => exact .intro hprinted htraced

theorem dropFrame (h : m.Resembles R m') (frame : FrameId) :
    (m.dropFrame frame).Resembles R (m'.dropFrame frame) := by
  cases h with
  | intro hprinted htraced => exact .intro hprinted htraced

theorem setGlobal (h : m.Resembles R m') (name : String) (v : Value) :
    (m.setGlobal name v).Resembles R (m'.setGlobal name v) := by
  cases h with
  | intro hprinted htraced => exact .intro hprinted htraced

theorem setTables (h : m.Resembles R m') (heap : Heap) :
    Resembles R { m with heap } { m' with heap } := by
  cases h with
  | intro hprinted htraced => exact .intro hprinted htraced

theorem heap_eq (h : m.Resembles R m') : m'.heap = m.heap := by
  cases h
  rfl

theorem print (h : m.Resembles R m') (line : String) :
    Resembles R { m with output := m.output.push line } { m' with output := m'.output.push line } := by
  cases h with
  | intro hprinted htraced => exact .intro (R.push line hprinted) htraced

/-- A traceback that is made anew is the same. -/
theorem trace (h : m.Resembles R m') (t : Option String) :
    Resembles R { m with traceback := t } { m' with traceback := t } := by
  cases h with
  | intro hprinted htraced => exact .intro hprinted (R.refl t)

theorem enter (h : m.Resembles R m') (closure : Closure) (args : List Value) :
    Alongside (Machine.Resembles R) (m.enter closure args) (m'.enter closure args) := by
  cases h with
  | intro hprinted htraced => exact ⟨rfl, .intro hprinted htraced⟩

theorem mint (h : m.Resembles R m') (f : Callable) :
    Alongside (Machine.Resembles R) (m.mint f) (m'.mint f) := by
  cases h with
  | intro hprinted htraced => exact ⟨rfl, .intro hprinted htraced⟩

theorem abandon (h : m.Resembles R m') (stack : List FrameId) :
    (m.abandon stack).Resembles R (m'.abandon stack) := by
  induction stack generalizing m m' with
  | nil => exact h
  | cons frame stack ih => exact ih (h.dropFrame frame)

/-- No host function reads the reports, if the calls it makes do not. -/
theorem host_run (hinner : InnerResembles R inner) (body : Host) (h : m.Resembles R m') :
    Outcomes (Alongside (Machine.Resembles R)) (body.run inner m) (body.run inner m') := by
  -- over what the host function does, which sees the same on both sides
  induction body generalizing m m' with
  | result values => exact .done ⟨rfl, h⟩
  | raise e => exact .done ⟨rfl, h⟩
  | print line next ih => exact ih (h.print line)
  | setGlobal name v next ih => exact ih (h.setGlobal name v)
  | tables next ih =>
    unfold Host.run
    rw [h.heap_eq]
    exact ih _ h
  | setTables heap next ih => exact ih (h.setTables heap)
  | load chunk file next ih =>
    obtain ⟨hid, hloaded⟩ := h.mint (.closure ⟨chunk.main, [], file⟩)
    have hload : (m.load chunk file).1 = (m'.load chunk file).1 := hid
    unfold Host.run
    dsimp only
    rw [hload]
    exact ih _ hloaded
  | call f args next ih =>
    have hcall := hinner f args h
    unfold Host.run
    generalize inner f args m = x at hcall
    generalize inner f args m' = y at hcall
    cases hcall with
    | stop reason => exact .stop reason
    | @done x y hsame =>
      obtain ⟨outcome, m₁⟩ := x
      obtain ⟨outcome', m₁'⟩ := y
      obtain ⟨rfl, h₁⟩ := hsame
      exact ih _ h₁

theorem callerEntries (h : m.Resembles R m') (stack : List FrameId) :
    m'.callerEntries stack = m.callerEntries stack := by
  induction stack with
  | nil => rfl
  | cons frame callers ih =>
    unfold Machine.callerEntries
    rw [ih, h.frame?]

theorem failTurn (h : m.Resembles R m') (stack : List FrameId) (e : ExecError) :
    (m.failTurn stack e).Matches (Turn.Resembles R) (m'.failTurn stack e) := by
  unfold Machine.failTurn unwind
  rw [h.callerEntries]
  -- the callers are the same, and so is the trace rendered from them
  cases m.callerEntries stack.tail with
  | error reason => exact .stop reason
  | ok entries =>
    refine .done ?_
    dsimp only
    rw [h.renderStack]
    exact .finish _ ((h.trace _).abandon stack)

theorem leaveTurn (h : m.Resembles R m') (current : FrameId) (callers : List FrameId)
    (values : List Value) :
    (m.leaveTurn current callers values).Matches (Turn.Resembles R)
      (m'.leaveTurn current callers values) := by
  have hdropped := h.dropFrame current
  unfold Machine.leaveTurn
  cases callers with
  | nil => exact .done (.finish _ hdropped)
  | cons caller callers =>
    dsimp only
    rw [hdropped.frame?]
    cases (m.dropFrame current).frame? caller with
    | none => exact .stop _
    | some a => exact .done (.goOn _ (hdropped.setFrame caller _))

theorem enterTurn (h : m.Resembles R m') (stack : List FrameId) (frame : FrameId) :
    (m.enterTurn stack frame).Matches (Turn.Resembles R) (m'.enterTurn stack frame) := by
  unfold Machine.enterTurn
  dsimp only
  split
  · exact .ask _ fun e => .done (.finish _ ((h.trace none).abandon _))
  · exact .done (.goOn _ h)

theorem reportDone (h : m.Resembles R m') (stack : List FrameId) (current : FrameId) (pc : Nat)
    (code : UInt8) {next next' : Attended Turn} (hnext : next.Matches (Turn.Resembles R) next') :
    (m.reportDone stack current pc code next).Matches (Turn.Resembles R)
      (m'.reportDone stack current pc code next') := by
  refine .ask (.after current pc code none) fun reply => ?_
  cases reply with
  | none => exact hnext
  | some e => exact h.failTurn stack (.runtime e)

theorem reportFailed (h : m.Resembles R m') (stack : List FrameId) (current : FrameId) (pc : Nat)
    (code : UInt8) (e : RuntimeError) :
    (m.reportFailed stack current pc code e).Matches (Turn.Resembles R)
      (m'.reportFailed stack current pc code e) := by
  refine .ask (.after current pc code (some e)) fun reply => ?_
  cases reply with
  | none => exact .done (.goOn stack h)
  | some e => exact h.failTurn stack (.runtime e)

theorem settle (hinner : InnerResembles R inner) (h : m.Resembles R m') (current : FrameId)
    (callers : List FrameId) (pc : Nat) (code : UInt8) (effect : Effect) :
    (Machine.settle inner m current callers pc code effect).Matches (Turn.Resembles R)
      (Machine.settle inner m' current callers pc code effect) := by
  cases effect with
  | next => exact h.reportDone _ current pc code (.done (.goOn _ h))
  | enter frame => exact h.reportDone _ current pc code (h.enterTurn _ frame)
  | leave values => exact h.reportDone _ current pc code (h.leaveTurn current callers values)
  | fault message => exact .ask (.raise message) fun e => h.reportFailed _ current pc code e
  | overflow => exact .stop .overflow
  | host body base c =>
    refine .bind (.ofExcept (h.host_run hinner body)) ?_
    rintro ⟨result, m₁⟩ ⟨_, m₁'⟩ ⟨rfl, h₁⟩
    refine .bind (.refl (R := Eq) (fun _ => rfl) (restamp result)) ?_
    rintro result _ rfl
    cases result with
    | error e =>
      cases e with
      | runtime e => exact h₁.reportFailed _ current pc code e
      | host e => exact h₁.failTurn _ _
    | ok values =>
      have hframe : m₁'.frame? current = m₁.frame? current := h₁.frame? current
      dsimp only
      -- the calling frame is there in both machines, or in neither
      rw [hframe]
      cases m₁.frame? current with
      | none => exact .stop _
      | some a =>
        have hplaced := h₁.setFrame current (a.place base c values)
        exact hplaced.reportDone _ current pc code (.done (.goOn _ hplaced))

theorem parkAll (h : m.Resembles R m') (frames : List FrameId) (result : RunResult) :
    (Machine.parkAll frames (.done (.finish result m))).Matches (Turn.Resembles R)
      (Machine.parkAll frames (.done (.finish result m'))) := by
  induction frames with
  | nil => exact .done (.finish result h)
  | cons frame frames ih => exact .ask _ fun _ => ih

/-- **One turn**, if the calls of host functions do not read the reports. -/
theorem turn (hinner : InnerResembles R inner) (h : m.Resembles R m') (stack : List FrameId) :
    (Machine.turn inner m stack).Matches (Turn.Resembles R) (Machine.turn inner m' stack) := by
  cases stack with
  | nil => exact .done (.finish _ h)
  | cons current callers =>
    unfold Machine.turn
    dsimp only
    rw [h.frame?]
    cases m.frame? current with
    | none => exact .stop _
    | some a =>
      dsimp only
      cases a.closure.proto.instructions[a.pc]? with
      | none => exact h.reportDone _ current a.pc Op.returnCode (h.leaveTurn current callers [])
      | some i =>
        refine .ask (.before _) fun decision => ?_
        cases decision with
        -- the frame is set back in either machine
        | suspend pc => exact (h.setFrame current { a with pc }).parkAll callers _
        | proceed =>
          have hperformed := h.perform { a with pc := a.pc + 1 } i
          dsimp only
          generalize m.perform { a with pc := a.pc + 1 } i = x at hperformed ⊢
          generalize m'.perform { a with pc := a.pc + 1 } i = x' at hperformed ⊢
          obtain ⟨m₁, a', effect⟩ := x
          obtain ⟨m₁', a'', effect'⟩ := x'
          obtain ⟨⟨⟩, h₁⟩ := hperformed
          exact settle hinner (h₁.setFrame current a') current callers a.pc i.code effect

/-! ### Runs and calls -/

/-- **Runs and calls do not read the reports.** -/
theorem of_fuel (R : Reporting) (fuel : Nat) :
    (∀ stack {m m' : Machine}, m.Resembles R m' →
      (Machine.run fuel stack m).Matches (Alongside (Machine.Resembles R))
        (Machine.run fuel stack m')) ∧
    ∀ f args {m m' : Machine}, m.Resembles R m' →
      (Machine.call fuel f args m).Matches (Alongside (Machine.Resembles R))
        (Machine.call fuel f args m') := by
  -- over the budget, for runs and calls together, since a host function may call back
  induction fuel with
  | zero => exact ⟨fun _ _ _ _ => .stop _, fun _ _ _ _ _ => .stop _⟩
  | succ fuel ih =>
    obtain ⟨hrun, hcall⟩ := ih
    have hinner : InnerResembles R fun f args m => (Machine.call fuel f args m).detach :=
      fun f args _ _ h => (hcall f args h).detach
    refine ⟨fun stack m m' h => ?_, fun f args m m' h => ?_⟩
    · rw [run_succ, run_succ]
      refine .bind (turn hinner h stack) fun next next' hnext => ?_
      cases hnext with
      | goOn stack h₁ => exact hrun stack h₁
      | finish result h₁ => exact .done ⟨rfl, h₁⟩
    · have hcallable := h.callable? f
      cases hf : m.callable? f with
      | none =>
        rw [call_none hf, call_none (hcallable.trans hf)]
        exact .ask _ fun e => .done ⟨rfl, h⟩
      | some callable =>
        cases callable with
        | closure closure =>
          by_cases hfits : closure.Fits
          · rw [call_closure hf hfits, call_closure (hcallable.trans hf) hfits]
            obtain ⟨hframe, hentered⟩ := h.enter closure args
            have hstack : m'.nextFrame = m.nextFrame := hframe.symm
            rw [hstack]
            exact hrun _ hentered
          · rw [call_overflow hf hfits, call_overflow (hcallable.trans hf) hfits]
            exact .stop .overflow
        | host body =>
          rw [call_host hf, call_host (hcallable.trans hf)]
          refine .bind (.ofExcept (h.host_run hinner (body args))) ?_
          rintro ⟨result, m₁⟩ ⟨_, m₁'⟩ ⟨rfl, h₁⟩
          refine .bind (.refl (R := Eq) (fun _ => rfl) (restamp result)) ?_
          rintro result _ rfl
          exact .done ⟨rfl, h₁⟩

theorem run (h : m.Resembles R m') (fuel : Nat) (stack : List FrameId) :
    (Machine.run fuel stack m).Matches (Alongside (Machine.Resembles R)) (Machine.run fuel stack m') :=
  (of_fuel R fuel).1 stack h

theorem call (h : m.Resembles R m') (fuel : Nat) (f : Value) (args : List Value) :
    (Machine.call fuel f args m).Matches (Alongside (Machine.Resembles R))
      (Machine.call fuel f args m') :=
  (of_fuel R fuel).2 f args h

/-- A suspended frame goes on in either machine. -/
theorem runFrame (h : m.Resembles R m') (fuel : Nat) (frame : FrameId) :
    (Machine.runFrame fuel frame m).Matches (Alongside (Machine.Resembles R))
      (Machine.runFrame fuel frame m') := by
  refine .bind (.refl (R := Eq) (fun _ => rfl) (rebuild fuel [frame])) ?_
  rintro result _ rfl
  cases result with
  | error e => exact .done ⟨rfl, h⟩
  | ok stack =>
    -- the same frames are there in both machines
    have hlive : (fun id => (m'.frame? id).isNone) = fun id => (m.frame? id).isNone :=
      funext fun id => congrArg Option.isNone (h.frame? id)
    dsimp only
    rw [hlive]
    cases stack.reverse.find? fun id => (m.frame? id).isNone with
    | none => exact h.run fuel stack
    | some id => exact .done ⟨rfl, h⟩

end Resembles

end Machine

end BytecodeDebugger
