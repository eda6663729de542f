import BytecodeDebugger.Proofs.Machine.Nesting
import BytecodeDebugger.Proofs.Session.Traces

/-!
# Traces through host functions

An error may come out through several runs, one in the other, with host functions between them that raise
what they are given. If it is one of the host, it lists all runs in the end. If it is one of the program,
the host functions lose what the runs inside had noted, and the error lists the outermost run alone
(`Session.trace_of_the_outermost_run`), also where the debugger reports it.

Main statement: `Session.traces_through_host_functions`.
-/

namespace BytecodeDebugger

open Machine (Moment Failure)

/-- **What traces show of runs in runs.** When an instruction of a run fails with an error that comes from
inside, through host functions that raise what they are given, the run ends with an error that shows all
levels or only the outermost one, depending on the cause. So it is in every run that a new session over a
machine without frames undertakes after any deeds, and there the debugger reports the same list; and so it
is in every call without a debugger. -/
theorem Session.traces_through_host_functions (fuel : Nat) :
    (∀ (config : Config) (saved : SavedSession) (clock : Time) (vm : Machine), vm.frames = .empty →
      ∀ (deeds : List Deed) (s : Session Machine),
        Session.undertakeAll fuel ⟨.start config saved clock, vm⟩ deeds = .ok s →
      ∀ (deed : Deed) (x : Entrance Machine) (p : Moment Engine) (f : Failure) (budget : Nat)
        (cause : Mishap) (levels : List Failure), s.Undertakes fuel deed x → x.Reaches fuel p →
        p.Fails Engine.reply f → p.budget = budget + 1 → f.ComesFrom budget p.machine cause levels →
      ∃ error s', x.outcome (Machine.interpreter fuel) = .ok (.error error, s') ∧
        f.Shows cause levels error ∧ ∀ origin, (s'.engine.fail error origin).1.stack = error.stack) ∧
    ∀ (m : Machine), m.Bounded → ∀ (function : Value) (args : List Value) (p : Moment Unit)
      (f : Failure) (budget : Nat) (cause : Mishap) (levels : List Failure),
      Moment.Called Attended.alone fuel function args m () p → p.Fails Attended.alone f →
      p.budget = budget + 1 → f.ComesFrom budget p.machine cause levels →
      ∃ error final, (Machine.call fuel function args m).detach = .ok (.error error, final) ∧
        f.Shows cause levels error := by
  constructor
  · intro config saved clock vm hvm deeds s hs deed x p f budget cause levels hx hp hfails hspent hfrom
    obtain ⟨hruns, -⟩ := (hx.ready (.undertaken hvm hs)).reaches hp
    obtain ⟨error, final, e', hrest, hne, hshows⟩ :=
      hfails.shows Engine.tracing_reply hruns hspent hfrom
    exact ⟨error, ⟨e', final⟩, hp.outcome hrest, hshows, fun origin => e'.stack_fail hne origin⟩
  · intro m hb function args p f budget cause levels hp hfails hspent hfrom
    obtain ⟨error, final, _, hrest, -, hshows⟩ :=
      hfails.shows Attended.tracing_alone (hp.keeps hb) hspent hfrom
    exact ⟨error, final, Machine.FailsThrough.detach_of_rest hp hrest, hshows⟩

/-! ### A program with a host function in between -/

namespace Machine

/-- A machine with five functions: the first calls its first argument with the two others on line 1, the
second is a host function that calls its first argument with the others and raises what it is given, the
third calls its argument on line 7, the fourth is a host function that fails, and the fifth adds nil to
nil. -/
def relaying : Machine where
  heap := ⟨#[.empty]⟩
  cells := #[]
  functions := #[
    .closure ⟨{ numParams := 3, instructions := #[⟨28, 0, 3, 1⟩, ⟨30, 0, 1, 0⟩], lines := #[1, 2] },
      [], "main"⟩,
    .host Host.callback,
    .closure ⟨{ numParams := 1, instructions := #[⟨28, 0, 1, 1⟩, ⟨30, 0, 1, 0⟩], lines := #[7, 8] },
      [], "main"⟩,
    .host (Host.failing (.host { message := "broken" })),
    .closure adding.closure]
  frames := .empty
  nextFrame := 0
  output := #[]
  traceback := none

/-- The first function, entered to call `f` with `x` by way of the host function. -/
def relayingOuter (f x : Value) : Activation where
  closure := ⟨{ numParams := 3, instructions := #[⟨28, 0, 3, 1⟩, ⟨30, 0, 1, 0⟩], lines := #[1, 2] },
    [], "main"⟩
  registers := #[.function 1, f, x]
  pc := 0
  pending := none

/-- The third function, entered to call the fourth. -/
def relayingInner : Activation where
  closure := ⟨{ numParams := 1, instructions := #[⟨28, 0, 1, 1⟩, ⟨30, 0, 1, 0⟩], lines := #[7, 8] },
    [], "main"⟩
  registers := #[.function 3]
  pc := 0
  pending := none

/-- The machine inside the first function. -/
def relayingEntered (f x : Value) : Machine :=
  (relaying.enter (relayingOuter f x).closure [.function 1, f, x]).2

/-- The machine in which the host function makes its call. -/
def relayingBehind (f x : Value) : Machine :=
  (relayingEntered f x).setFrame 0 { relayingOuter f x with pc := 1 }

theorem Failure.Stands.eq_of_callers {x : Failure} {entries : List StackEntry} (h : x.Stands entries)
    (hcallers : x.callers = []) : entries = [⟨x.frame, x.activation.pc⟩] := by
  obtain ⟨waits, rfl, hawaits⟩ := h
  rw [hcallers] at hawaits
  cases hawaits
  rfl

/-- The first instruction fails because of what fails in the function that the host function calls. -/
theorem relaying_fails {σ : Type} (hook : Attended.Hook σ) (s : σ) {f x : Value} {e : ExecError}
    {m : Machine} {mishap cause : Mishap} {levels : List Failure}
    (hproceeds : (hook (.before (siteOf 0 (relayingOuter f x) ⟨28, 0, 3, 1⟩)) s).1 = Decision.proceed)
    (hfailed : (call 8 f [x] (relayingBehind f x)).detach = .ok (.error e, m))
    (hmishap : (∃ failure, e = .host failure ∧ mishap = .host failure) ∨
      ∃ message passed, e = .runtime ⟨message, passed, none⟩ ∧ mishap = .fault message)
    (hnested : FailsThrough 8 f [x] (relayingBehind f x) cause levels) :
    Moment.Fails hook ⟨9, [0], relayingEntered f x, s⟩
        ⟨0, [], relayingOuter f x, ⟨28, 0, 3, 1⟩, mishap, m⟩ ∧
      Failure.ComesFrom ⟨0, [], relayingOuter f x, ⟨28, 0, 3, 1⟩, mishap, m⟩ 8 (relayingEntered f x)
        cause levels := by
  have hperformed : (relayingEntered f x).perform { relayingOuter f x with pc := 1 } ⟨28, 0, 3, 1⟩ =
      (relayingEntered f x, { relayingOuter f x with pc := 1 }, .host (Host.callback [f, x]) 0 1) :=
    rfl
  have hrelays : (Host.callback [f, x]).Relays (fun f args m => (call 8 f args m).detach) f [x]
      (relayingBehind f x) e (relayingBehind f x) m := .call hfailed rfl
  refine ⟨⟨rfl, rfl, rfl, hproceeds, 8, rfl, ?_⟩, .relayed (.host hperformed hrelays) hnested⟩
  -- an error of the host and one of the program take the same way out
  rcases hmishap with ⟨failure, rfl, rfl⟩ | ⟨message, passed, rfl, rfl⟩
  · exact .host hperformed hrelays.run_eq
  · exact .program hperformed hrelays.run_eq

/-- The machine inside the third function. -/
def relayingNested : Machine :=
  ((relayingBehind (.function 2) (.function 3)).enter relayingInner.closure [.function 3]).2

/-- The third function fails as the fourth does. -/
def relayingLevel : Failure :=
  ⟨1, [], relayingInner, ⟨28, 0, 1, 1⟩, .host { message := "broken" },
    relayingNested.setFrame 1 { relayingInner with pc := 1 }⟩

/-- The call of the third function fails in one level. -/
theorem relaying_level : FailsThrough 8 (.function 2) [.function 3]
    (relayingBehind (.function 2) (.function 3)) (.host { message := "broken" }) [relayingLevel] := by
  have hcalled : Moment.Called Attended.alone 8 (.function 2) [.function 3]
      (relayingBehind (.function 2) (.function 3)) () ⟨7, [1], relayingNested, ()⟩ :=
    ⟨7, _, rfl, rfl, by decide, .refl⟩
  have hperformed : relayingNested.perform { relayingInner with pc := 1 } ⟨28, 0, 1, 1⟩ =
      (relayingNested, { relayingInner with pc := 1 },
        .host (.raise (.host { message := "broken" })) 0 1) := rfl
  have hfails : Moment.Fails Attended.alone ⟨7, [1], relayingNested, ()⟩ relayingLevel :=
    ⟨rfl, rfl, rfl, rfl, 6, rfl, .host hperformed rfl⟩
  exact .raised hcalled hfails

end Machine

/-- The program whose host function fails inside, in a new session and without a debugger: the call inside
is listed, and behind it the call outside. -/
theorem Session.failure_of_the_host_inside :
    (∃ error s', (Entrance.mk ⟨.start {} {} 0, .relaying⟩
        (.call ⟨.function 0, [.function 1, .function 2, .function 3]⟩)).outcome
          (Machine.interpreter 10) = .ok (.error error, s') ∧ error.stack = [⟨1, 0⟩, ⟨0, 0⟩] ∧
        (s'.engine.fail error none).1.stack = [⟨1, 0⟩, ⟨0, 0⟩]) ∧
      ∃ error final, (Machine.call 10 (.function 0) [.function 1, .function 2, .function 3]
        .relaying).detach = .ok (.error error, final) ∧ error.stack = [⟨1, 0⟩, ⟨0, 0⟩] := by
  obtain ⟨hattended, halone⟩ := Session.traces_through_host_functions 10
  have hfailed : ∃ m, (Machine.call 8 (.function 2) [.function 3]
      (Machine.relayingBehind (.function 2) (.function 3))).detach =
        .ok (.error (.host { message := "broken", stack := [⟨1, 0⟩] }), m) := ⟨_, rfl⟩
  -- what the inner machine looks like does not matter
  obtain ⟨m, hfailed⟩ := hfailed
  -- no frame of the two levels has a caller
  have hentries : ∀ {f : Failure} {error : ExecError}, f.callers = [] →
      (⟨f.frame, f.activation.pc⟩ : StackEntry) = ⟨0, 0⟩ →
      f.Shows (.host { message := "broken" }) [Machine.relayingLevel] error →
      error.stack = [⟨1, 0⟩, ⟨0, 0⟩] := by
    intro f error hcallers hat hshows
    obtain ⟨parts, hstands, hstack⟩ := hshows.whole _ rfl
    obtain ⟨inside, rest, hinside, hrest, rfl⟩ := List.forall₂_cons_left_iff.mp hstands
    obtain ⟨outside, none, houtside, hnone, rfl⟩ := List.forall₂_cons_left_iff.mp hrest
    obtain rfl := List.forall₂_nil_left_iff.mp hnone
    rw [hstack, hinside.eq_of_callers rfl, houtside.eq_of_callers hcallers, hat]
    rfl
  constructor
  · obtain ⟨hfails, hfrom⟩ := Machine.relaying_fails Engine.reply (.start {} {} 0) rfl hfailed
      (.inl ⟨_, rfl, rfl⟩) Machine.relaying_level
    obtain ⟨error, s', houtcome, hshows, hreported⟩ := hattended {} {} 0 .relaying rfl [] _ rfl
      (.operation (.submit ⟨.function 0, [.function 1, .function 2, .function 3]⟩)) _ _ _ 8 _ _
      (.submit rfl) (.call ⟨9, _, rfl, rfl, by decide, .refl⟩) hfails rfl hfrom
    have hstack := hentries rfl rfl hshows
    exact ⟨error, s', houtcome, hstack, (hreported none).trans hstack⟩
  · obtain ⟨hfails, hfrom⟩ := Machine.relaying_fails Attended.alone () rfl hfailed
      (.inl ⟨_, rfl, rfl⟩) Machine.relaying_level
    obtain ⟨error, final, hcall, hshows⟩ := halone .relaying (.of_empty rfl) (.function 0) _ _ _ 8 _ _
      ⟨9, _, rfl, rfl, by decide, .refl⟩ hfails rfl hfrom
    exact ⟨error, final, hcall, hentries rfl rfl hshows⟩

/-- The machine inside the function that adds nil to nil, when the host function calls it. -/
def Machine.relayingAdding : Machine :=
  ((relayingBehind (.function 4) .nil).enter adding.closure [.nil]).2

/-- **A failure of the program inside**: the same host function calls the function that adds nil to nil,
which fails in a run inside. The host function raises the error that it is given, but the session ends with
an error, and reports one, that does not list the run inside. -/
theorem Session.failure_of_the_program_inside :
    ∃ (p : Moment Engine) (f level : Failure) (cause : Mishap) (error : ExecError)
      (s' : Session Machine),
      (Entrance.mk ⟨.start {} {} 0, .relaying⟩
        (.call ⟨.function 0, [.function 1, .function 4, .nil]⟩)).Reaches 10 p ∧
      p.Fails Engine.reply f ∧ p.budget = 9 ∧ f.ComesFrom 8 p.machine cause [level] ∧
      level.Stands [⟨1, 0⟩] ∧ f.Stands [⟨0, 0⟩] ∧
      (Entrance.mk ⟨.start {} {} 0, .relaying⟩
        (.call ⟨.function 0, [.function 1, .function 4, .nil]⟩)).outcome (Machine.interpreter 10) =
          .ok (.error error, s') ∧
      error.stack ≠ [⟨1, 0⟩] ++ [⟨0, 0⟩] ∧
      (s'.engine.fail error none).1.stack ≠ [⟨1, 0⟩] ++ [⟨0, 0⟩] := by
  have hfailed : ∃ m, (Machine.call 8 (.function 4) [.nil]
      (Machine.relayingBehind (.function 4) .nil)).detach =
        .ok (.error (.runtime ⟨Machine.arithmeticFault .nil, [⟨1, 0⟩], none⟩), m) := ⟨_, rfl⟩
  obtain ⟨m, hfailed⟩ := hfailed
  have hcalled : Moment.Called Attended.alone 8 (.function 4) [.nil]
      (Machine.relayingBehind (.function 4) .nil) () ⟨7, [1], Machine.relayingAdding, ()⟩ :=
    ⟨7, _, rfl, rfl, by decide, .refl⟩
  -- the inner level fails on the arithmetic, and the outer one passes the error on
  have hadding : Moment.Fails Attended.alone ⟨7, [1], Machine.relayingAdding, ()⟩
      ⟨1, [], Machine.adding, ⟨12, 0, 0, 0⟩, .fault (Machine.arithmeticFault .nil),
        Machine.relayingAdding.setFrame 1 { Machine.adding with pc := 1 }⟩ :=
    ⟨rfl, rfl, rfl, rfl, 6, rfl, .fault rfl⟩
  obtain ⟨hfails, hfrom⟩ := Machine.relaying_fails Engine.reply (.start {} {} 0) rfl hfailed
    (.inr ⟨_, _, rfl, rfl⟩) (.raised hcalled hadding)
  have houtcome : ∃ error s', (Entrance.mk ⟨.start {} {} 0, .relaying⟩
      (.call ⟨.function 0, [.function 1, .function 4, .nil]⟩)).outcome (Machine.interpreter 10) =
        .ok (.error error, s') ∧ error.stack = [⟨0, 0⟩] ∧
        (s'.engine.fail error none).1.stack = [⟨0, 0⟩] := ⟨_, _, rfl, rfl, rfl⟩
  obtain ⟨error, s', houtcome, hstack, hreported⟩ := houtcome
  refine ⟨_, _, _, _, error, s', .call ⟨9, _, rfl, rfl, by decide, .refl⟩, hfails, rfl, hfrom, ⟨[], rfl, .nil⟩,
    ⟨[], rfl, .nil⟩, houtcome, ?_, ?_⟩
  · rw [hstack]
    decide
  · rw [hreported]
    decide

end BytecodeDebugger
