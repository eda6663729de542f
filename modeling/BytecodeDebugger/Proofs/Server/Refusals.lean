import BytecodeDebugger.Proofs.Server.Transcript

/-!
# Refused requests

A request is refused for its command, for the fields of its arguments, for a program that cannot be
loaded or for a line that no file has (`Request.RefusedFor`). All of this shows before anything is
done, so that a refused request leaves the engine and the machine as they were; every other request is
answered with success, whatever becomes of what it asked for, if that comes to an end. Two kinds of
requests that could be refused are not, and end the server: a toggle of a line that no list can be long
enough for, and a launch of a program whose main function has more parameters than a frame has room for.

Main statement: `Server.refused_request_changes_nothing`, for every request that comes to a server
after whatever it was given before.
-/

namespace BytecodeDebugger

namespace Request

/-- **Why a request is refused**, as its command, the shape of its arguments and the files say. -/
inductive RefusedFor {ω : Type} (read : String → StateM ω (Except FileFault String)) (w : ω)
    (r : Request) : Refusal → Prop
  | unknown : r.command ∉ commands → RefusedFor read w r (.unknown r.command)
  | noProgram : r.command = "launch" → (∀ path, ¬ r.NamesProgram path) →
      RefusedFor read w r .noProgram
  | notLoaded {path : String} {error : LoadError} : r.command = "launch" → r.NamesProgram path →
      (Program.load read path w).1 = .error error → RefusedFor read w r (.notLoaded error)
  | noLine : r.command = "toggleBreakpoint" → (∀ file line, ¬ r.NamesLine file line) →
      RefusedFor read w r .noLine
  | lineZero {file : String} : r.command = "toggleBreakpoint" → r.NamesLine file 0 →
      RefusedFor read w r (.invalidLine ⟨file, 0⟩)

end Request

namespace Order

/-- A plain order is carried out, whatever becomes of it. -/
theorem Plain.answered {order : Order String} (h : Plain order) {ω : Type}
    (read : String → StateM ω (Except FileFault String)) (w : ω) {fuel : Nat}
    {s s' : Session Machine} {answer : Session.Answer}
    (hs' : s.obey fuel (order.load read w).1 = .ok (answer, s')) : ∃ body, answer = .ok body := by
  -- the commands that answer nothing have a body none the less
  have hsilently : ∀ {x : Except Stop (Session Machine)}, Session.silently x = .ok (answer, s') →
      ∃ body, answer = .ok body := by
    intro x hx
    obtain ⟨_, -, hdone⟩ := Attended.exists_of_map_eq_ok hx
    exact ⟨none, (Prod.mk.inj hdone).1.symm⟩
  cases order with
  | launch | toggleBreakpoint => exact h.elim
  | introduce | toggleStops | pause | currentState | disconnect =>
    exact ⟨_, (Prod.mk.inj (Except.ok.inj hs')).1.symm⟩
  | stepIn | stepOver | stepOut | resume => exact hsilently hs'
  | autoStep =>
    obtain ⟨_, -, hdone⟩ := Attended.exists_of_map_eq_ok hs'
    exact ⟨_, (Prod.mk.inj hdone).1.symm⟩

end Order

namespace Request

variable {ω : Type} {read : String → StateM ω (Except FileFault String)} {w : ω} {r : Request}

/-- **A refused request does nothing**, and nothing follows the refusal. -/
theorem RefusedFor.comply {refusal : Refusal} (h : r.RefusedFor read w refusal) (fuel : Nat)
    (s : Session Machine) :
    s.comply fuel (r.order read w).1 = .ok (.error refusal, s) ∧
      Server.afterwards (r.order read w).1 = [] ∧ Server.stays (r.order read w).1 = true := by
  -- what is refused when it is read never gets as far as the session
  have herror : ∀ {refusal}, Order.ofRequest r = .error refusal →
      s.comply fuel (r.order read w).1 = .ok (.error refusal, s) ∧
        Server.afterwards (r.order read w).1 = [] ∧ Server.stays (r.order read w).1 = true := by
    intro refusal hread
    rw [order_of_error hread]
    exact ⟨rfl, rfl, rfl⟩
  cases h with
  | unknown hcommand =>
    rcases Order.ofRequest_cases r with ⟨hc, -⟩ | ⟨hc, -⟩ | ⟨hc, -⟩ | ⟨-, hread⟩
    · exact absurd (hc ▸ by decide) hcommand
    · exact absurd (hc ▸ by decide) hcommand
    · exact absurd hc hcommand
    · exact herror hread
  | noProgram hcommand hnone =>
    rcases Order.ofLaunch_cases r with ⟨path, _, hpath, -⟩ | ⟨-, hread⟩
    · exact absurd hpath (hnone path)
    · exact herror ((ofRequest_of_launch hcommand).trans hread)
  | notLoaded hcommand hpath hload =>
    obtain ⟨stop, horder⟩ := order_of_namesProgram read w hcommand hpath
    rw [horder, hload]
    exact ⟨rfl, rfl, rfl⟩
  | noLine hcommand hnone =>
    rcases Order.ofToggle_cases r with ⟨file, line, hline, -⟩ | ⟨-, hread⟩
    · exact absurd hline (hnone file line)
    · exact herror ((ofRequest_of_toggle hcommand).trans hread)
  | lineZero hcommand hline =>
    rw [order_of_namesLine hcommand hline]
    exact ⟨rfl, rfl, rfl⟩

/-- **Every other request is an order that is carried out**, whatever becomes of it. -/
theorem accepted (h : ∀ refusal, ¬ r.RefusedFor read w refusal) (fuel : Nat) :
    ∃ order, (r.order read w).1 = .ok order ∧ ∀ {s s' : Session Machine} {answer : Session.Answer},
      s.obey fuel order = .ok (answer, s') → ∃ body, answer = .ok body := by
  -- a launch, a toggle, one of the plain commands, or none of the server's
  rcases Order.ofRequest_cases r with ⟨hc, hlaunch⟩ | ⟨hc, htoggle⟩ | ⟨-, -, -, hplain⟩ |
    ⟨hunknown, -⟩
  · rcases Order.ofLaunch_cases r with ⟨path, stop, hpath, hread⟩ | ⟨hnone, -⟩
    · refine ⟨_, order_of_launch (hlaunch.trans hread), ?_⟩
      cases hload : (Program.load read path w).1 with
      | error error => exact absurd (.notLoaded hc hpath hload) (h (.notLoaded error))
      | ok program =>
        intro s s' answer hs'
        obtain ⟨_, -, hdone⟩ := Attended.exists_of_map_eq_ok hs'
        exact ⟨_, (Prod.mk.inj hdone).1.symm⟩
    · exact absurd (.noProgram hc hnone) (h .noProgram)
  · rcases Order.ofToggle_cases r with ⟨file, line, hline, hread⟩ | ⟨hnone, -⟩
    · refine ⟨_, order_of_toggle (htoggle.trans hread), ?_⟩
      intro s s' answer hs'
      have hpositive : line ≠ 0 := by
        rintro rfl
        exact h _ (.lineZero hc hline)
      -- a line beyond every list has no answer at all
      rcases Nat.lt_or_ge Text.maxLength line with hbeyond | hroom
      · rw [s.obey_beyond hbeyond] at hs'
        cases hs'
      · obtain ⟨body, s₁, hobeyed⟩ := s.obey_toggle fuel file hpositive hroom
        rw [hobeyed] at hs'
        exact ⟨_, (Prod.mk.inj (Except.ok.inj hs')).1.symm⟩
    · exact absurd (.noLine hc hnone) (h .noLine)
  · obtain ⟨order, hread, horder⟩ := hplain
    -- a plain command is answered as soon as it is read
    refine ⟨(order.load read w).1, ?_, horder.answered read w⟩
    unfold Request.order
    rw [hread]
    rfl
  · exact absurd (.unknown hunknown) (h _)

end Request

namespace Server

variable {ω : Type} {fuel : Nat} {read : String → StateM ω (Except FileFault String)} {s : Server}

/-! ### What was printed is passed on at once -/

theorem output_flush (s : Server) : s.flush.2.session.vm.output = #[] := by
  unfold flush
  dsimp only
  rw [sendAll_server]
  rfl

/-- Nothing that was printed waits between two inputs. -/
theorem output_take (hs : s.session.vm.output = #[]) {input : Input} {w : ω}
    {p : List Message × Server} (hp : (s.take fuel read input w).1 = .ok p) :
    p.2.session.vm.output = #[] := by
  cases input with
  | message message =>
    obtain ⟨requestSeq, kind, content⟩ := message
    cases content with
    | response | notice =>
      cases hp
      exact hs
    | request r =>
      -- a request, like a tick, ends with a flush, and the rest prints nothing
      rw [take_request, answer_eq] at hp
      obtain ⟨served, hserved, rfl⟩ := Attended.exists_of_map_eq_ok hp
      obtain ⟨_, -, rfl⟩ := Attended.exists_of_map_eq_ok hserved
      exact output_flush _
  | tick now =>
    have htick : s.tick fuel now = .ok p := hp
    rw [tick_eq] at htick
    obtain ⟨_, -, rfl⟩ := Attended.exists_of_map_eq_ok htick
    exact output_flush _
  | clock | saved =>
    cases hp
    exact hs

theorem output_takeAll (hs : s.session.vm.output = #[]) {inputs : List Input} {w : ω}
    {p : List (List Message) × Server} (hp : (s.takeAll fuel read inputs w).1 = .ok p) :
    p.2.session.vm.output = #[] := by
  -- over the inputs; none of them leaves a line that was not passed on
  induction inputs generalizing s w p with
  | nil =>
    cases hp
    exact hs
  | cons input inputs ih =>
    rw [takeAll_cons] at hp
    cases hfirst : (s.take fuel read input w).1 with
    | error reason =>
      rw [hfirst] at hp
      cases hp
    | ok first =>
      rw [hfirst] at hp
      obtain ⟨rest, hrest, rfl⟩ := Attended.exists_of_map_eq_ok hp
      have hend := ih (output_take hs hfirst) hrest
      exact hend

/-! ### Answers -/

/-- **A refused request is answered with the refusal**, and what was printed or announced before it is
passed on. -/
theorem answer_of_refused {r : Request} {w : ω} {refusal : Refusal}
    (h : r.RefusedFor read w refusal) (fuel : Nat) (s : Server) (requestSeq : Nat) :
    ∃ served, s.answer fuel requestSeq r.command (r.order read w).1 = .ok served ∧
      served.server.session = { s.session with vm := s.session.vm.takeOutput.2 } ∧
      served.connected = true ∧
      served.written.map Message.content =
        .response (respond requestSeq r.command (.error refusal)) ::
          (s.session.vm.output.toList.map (Content.notice ∘ printedNotice) ++
            (s.subscription.pending s.session.engine.events).map (Content.notice ∘ Event.notice)) := by
  obtain ⟨hcomply, hafter, hstays⟩ := h.comply fuel s.session
  rw [answer_eq, hcomply, hafter, hstays]
  -- the session only has its output taken; what is written is the refusal, the lines and the events
  refine ⟨_, rfl, ?_, rfl, ?_⟩
  · unfold flush
    dsimp only
    rw [sendAll_server, sendAll_server]
  · unfold flush
    dsimp only
    rw [List.map_append, map_content_sendAll, map_content_sendAll, sendAll_server]
    rfl

/-- **Every other request is answered with success** once it has done what it asks for. -/
theorem answer_of_accepted {r : Request} {w : ω}
    (h : ∀ refusal, ¬ r.RefusedFor read w refusal) (fuel : Nat) (s : Server) (requestSeq : Nat) :
    ∃ order, (r.order read w).1 = .ok order ∧
      Outcomes (fun served session' => served.server.session.engine = session'.engine ∧
          ∃ body rest, served.written.map Message.content =
            .response (respond requestSeq r.command (.ok body)) :: rest)
        (s.answer fuel requestSeq r.command (r.order read w).1)
        (s.session.undertakeAll fuel order.deeds) := by
  obtain ⟨order, horder, hanswered⟩ := Request.accepted h fuel
  refine ⟨order, horder, ?_⟩
  -- obeying the order is to undertake its deeds
  rw [answer_eq, horder, ← Session.map_obey]
  change Outcomes _ ((s.session.obey fuel order).map _) _
  cases hobeyed : s.session.obey fuel order with
  | error reason => exact .stop reason
  | ok p =>
    obtain ⟨answer, session'⟩ := p
    obtain ⟨body, rfl⟩ := hanswered hobeyed
    refine .done ⟨?_, body, ?_⟩
    · unfold flush
      dsimp only
      rw [sendAll_server, sendAll_server]
    · dsimp only
      rw [List.map_append, map_content_sendAll]
      exact ⟨_, rfl⟩

/-- **A launch without room for its main function** has no answer while a program runs. -/
theorem answer_of_roomless {r : Request} {w : ω} {path : String} {program : Program}
    (hcommand : r.command = "launch") (hpath : r.NamesProgram path)
    (hload : (Program.load read path w).1 = .ok program)
    (hfits : ¬Closure.Fits ⟨program.chunk.main, [], program.file⟩)
    (hs : s.session.engine.status = .running) (fuel requestSeq : Nat) :
    s.answer (fuel + 1) requestSeq r.command (r.order read w).1 = .error .overflow := by
  obtain ⟨stop, horder⟩ := Request.order_of_namesProgram read w hcommand hpath
  rw [answer_eq, horder, hload]
  unfold Session.comply Session.obey
  dsimp only
  rw [Session.launch_overflow fuel _ hs hfits]
  rfl

/-- **A toggle that there is room for** is answered. -/
theorem exists_answer_of_toggle {r : Request} {file : String} {line : Nat}
    (hcommand : r.command = "toggleBreakpoint") (hline : r.NamesLine file line)
    (hroom : line ≤ Text.maxLength) (fuel : Nat) (s : Server) (requestSeq : Nat) (w : ω) :
    ∃ served, s.answer fuel requestSeq r.command (r.order read w).1 = .ok served := by
  rw [answer_eq, Request.order_of_namesLine hcommand hline]
  unfold Session.comply
  dsimp only
  -- line 0 is refused, and a refusal is an answer
  by_cases hzero : line = 0
  · subst hzero
    exact ⟨_, rfl⟩
  · obtain ⟨body, session, hobeyed⟩ := s.session.obey_toggle fuel file hzero hroom
    rw [hobeyed]
    exact ⟨_, rfl⟩

/-- **A refused request changes nothing.** Whatever a new server was given before, over any engine, a
request that is refused is answered with the reason, and its session is then exactly what it was, the
engine with everything in it and the machine; no event comes of it, since all that follows the answer
are events that were announced before and not passed on yet, under their names and with their bodies.

Every other request is answered with success as soon as what it asks for comes to an end, a program that
fails included, and stops for the same reason if it does not. A toggle comes to an end exactly if there
can be a list that is long enough for its line. A launch does not while a program runs if the main
function has more parameters than a frame has room for. -/
theorem refused_request_changes_nothing (engine : Engine) (inputs : List Input) {w w' : ω}
    {batches : List (List Message)}
    (hreached : (start ⟨engine, .initial⟩).takeAll fuel read inputs w = (.ok (batches, s), w'))
    (requestSeq : Nat) (kind : String) (r : Request) :
    (∀ refusal, r.RefusedFor read w' refusal → ∃ served,
      (s.handle fuel read ⟨requestSeq, kind, .request r⟩ w').1 = .ok served ∧
        served.server.session = s.session ∧ served.connected = true ∧
        served.written.map Message.content =
          .response ⟨requestSeq, false, r.command, some refusal.message, none⟩ ::
            (s.subscription.pending s.session.engine.events).map
              fun e => .notice ⟨e.name, e.body?.map Json.canonical⟩) ∧
    ((∀ refusal, ¬ r.RefusedFor read w' refusal) → ∃ order, (r.order read w').1 = .ok order ∧
      Outcomes (fun served session' => served.server.session.engine = session'.engine ∧
          ∃ body rest, served.written.map Message.content =
            .response ⟨requestSeq, true, r.command, none, body⟩ :: rest)
        (s.handle fuel read ⟨requestSeq, kind, .request r⟩ w').1
        (s.session.undertakeAll fuel order.deeds)) ∧
    (∀ file line, r.command = "toggleBreakpoint" → r.NamesLine file line →
      (line ≤ Text.maxLength → ∃ served,
        (s.handle fuel read ⟨requestSeq, kind, .request r⟩ w').1 = .ok served) ∧
      (Text.maxLength < line →
        (s.handle fuel read ⟨requestSeq, kind, .request r⟩ w').1 = .error .overflow)) ∧
    (∀ path program, r.command = "launch" → r.NamesProgram path →
      (Program.load read path w').1 = .ok program → maxRegisters < program.chunk.main.numParams →
      s.session.engine.status = .running → 0 < fuel →
        (s.handle fuel read ⟨requestSeq, kind, .request r⟩ w').1 = .error .overflow) := by
  -- behind the inputs all that was printed has been passed on
  have hquiet : s.session.vm.output = #[] := by
    have hsame := output_takeAll (s := start ⟨engine, .initial⟩) (p := (batches, s)) rfl
      (congrArg Prod.fst hreached)
    exact hsame
  rw [handle_request]
  refine ⟨?_, ?_, ?_, ?_⟩
  · intro refusal hrefused
    obtain ⟨served, hserved, hsession, hconnected, hwritten⟩ :=
      answer_of_refused hrefused fuel s requestSeq
    refine ⟨served, hserved, ?_, hconnected, ?_⟩
    · rw [hsession]
      unfold Machine.takeOutput
      rw [← hquiet]
    · rw [hwritten, hquiet]
      rfl
  · intro haccepted
    obtain ⟨order, horder, hboth⟩ := answer_of_accepted haccepted fuel s requestSeq
    refine ⟨order, horder, hboth.mono ?_⟩
    rintro served session' ⟨hengine, body, rest, hwritten⟩
    exact ⟨hengine, body.map Json.canonical, rest, hwritten⟩
  · intro file line hcommand hline
    exact ⟨fun hroom => exists_answer_of_toggle hcommand hline hroom fuel s requestSeq w',
      fun hbeyond => answer_beyond hcommand hline hbeyond fuel s requestSeq w'⟩
  · intro path program hcommand hpath hload hlarge hs hfuel
    obtain ⟨n, rfl⟩ : ∃ n, fuel = n + 1 := ⟨fuel - 1, by omega⟩
    exact answer_of_roomless hcommand hpath hload (Nat.not_le_of_lt hlarge) hs n requestSeq

/-- A client asks for a breakpoint on a line that no file has. -/
def beforeTheFirstLine : Request :=
  ⟨"toggleBreakpoint", some (.object [("fileId", .string "a.lua"), ("line", .int 0)])⟩

/-- A directory with one file, a program whose main function has as many parameters as a number of 64
bits can say. -/
def crowdedProgram (path : String) : StateM Unit (Except FileFault String) :=
  pure <| if path = "a.json" then
    .ok "\x7b\"main\":\x7b\"instructions\":[],\"numParams\":18446744073709551615\x7d\x7d"
  else .error .notFound

theorem load_crowdedProgram : ∃ program, (Program.load crowdedProgram "a.json" ()).1 = .ok program ∧
    program.chunk.main.numParams = Text.maxWord := by
  have hread : (Program.load crowdedProgram "a.json" ()).1.toOption.map
      (fun program => program.chunk.main.numParams) = some Text.maxWord := by
    decide +kernel
  cases hloaded : (Program.load crowdedProgram "a.json" ()).1 with
  | error error =>
    rw [hloaded] at hread
    cases hread
  | ok program =>
    rw [hloaded] at hread
    exact ⟨program, rfl, Option.some.inj hread⟩

/-- After a program was launched, stopped and ran on, such a request is refused and changes nothing,
and a pause is answered with success. So is a toggle, if the line is not too far. A launch of a crowded
program is the end of a new server. -/
theorem refused_after_a_greeting : ∃ batches s w',
    (start ⟨.start {} {} 0, .initial⟩).takeAll 10 greetingProgram greetedClient () =
      (.ok (batches, s), w') ∧
    (∃ served, (s.handle 10 greetingProgram ⟨12, "request", .request beforeTheFirstLine⟩ w').1 =
        .ok served ∧ served.server.session = s.session ∧
      ∃ rest, served.written.map Message.content = .response ⟨12, false, "toggleBreakpoint",
        some "line numbers start at 1, got 0 for a.lua", none⟩ :: rest) ∧
    ∃ order, Outcomes (fun served session' => served.server.session.engine = session'.engine ∧
        ∃ body rest, served.written.map Message.content =
          .response ⟨13, true, "pause", none, body⟩ :: rest)
      (s.handle 10 greetingProgram ⟨13, "request", .request ⟨"pause", none⟩⟩ w').1
      (s.session.undertakeAll 10 (Order.deeds order)) ∧
    (∃ served, (s.handle 10 greetingProgram ⟨14, "request", .request ⟨"toggleBreakpoint",
      some (.object [("fileId", .string "a.lua"), ("line", .int 3)])⟩⟩ w').1 = .ok served) ∧
    (s.handle 10 greetingProgram ⟨15, "request", .request farToggle⟩ w').1 = .error .overflow ∧
    ((start ⟨.start {} {} 0, .initial⟩).handle 10 crowdedProgram ⟨1, "request", .request ⟨"launch",
      some (.object [("program", .string "a.json")])⟩⟩ ()).1 = .error .overflow := by
  have hruns : ((start ⟨.start {} {} 0, .initial⟩).takeAll 10 greetingProgram greetedClient ()).1.map
      (fun p => p.1.map List.length) = .ok [4, 0, 3, 1, 5, 1] := by
    decide +kernel
  obtain ⟨⟨batches, s⟩, hreached, -⟩ := Attended.exists_of_map_eq_ok hruns
  have hrefused : beforeTheFirstLine.RefusedFor greetingProgram () (.invalidLine ⟨"a.lua", 0⟩) :=
    .lineZero rfl ⟨by rfl, by rfl⟩
  -- a pause is refused for nothing
  have haccepted : ∀ refusal, ¬ Request.RefusedFor greetingProgram () ⟨"pause", none⟩ refusal := by
    rintro _ (h | h | h | h | h)
    · exact h (by decide)
    all_goals exact absurd h (by decide)
  have hstate : (start ⟨.start {} {} 0, .initial⟩).takeAll 10 greetingProgram greetedClient () =
      (.ok (batches, s), ()) := Prod.ext hreached (Subsingleton.elim _ _)
  obtain ⟨hbad, -⟩ := refused_request_changes_nothing _ _ hstate 12 "request" beforeTheFirstLine
  obtain ⟨-, hgood, -⟩ := refused_request_changes_nothing _ _ hstate 13 "request" ⟨"pause", none⟩
  obtain ⟨served, hserved, hsession, -, hwritten⟩ := hbad _ hrefused
  obtain ⟨order, -, hboth⟩ := hgood haccepted
  obtain ⟨-, -, hnear, -⟩ := refused_request_changes_nothing _ _ hstate 14 "request"
    ⟨"toggleBreakpoint", some (.object [("fileId", .string "a.lua"), ("line", .int 3)])⟩
  obtain ⟨-, -, hfar, -⟩ := refused_request_changes_nothing _ _ hstate 15 "request" farToggle
  have hanswered := (hnear "a.lua" 3 rfl ⟨by rfl, by rfl⟩).1 (by decide)
  have hunanswered := (hfar "a.lua" Text.maxWord rfl namesLine_farToggle).2 (by decide)
  obtain ⟨program, hload, hparams⟩ := load_crowdedProgram
  have hfresh : (start ⟨.start {} {} 0, .initial⟩).takeAll 10 crowdedProgram [] () =
      (.ok ([], start ⟨.start {} {} 0, .initial⟩), ()) := rfl
  obtain ⟨-, -, -, hcrowded⟩ := refused_request_changes_nothing _ _ hfresh 1 "request"
    ⟨"launch", some (.object [("program", .string "a.json")])⟩
  have hroomless := hcrowded "a.json" program rfl (by rfl) hload (by rw [hparams]; decide) rfl
    (by decide)
  exact ⟨batches, s, (), hstate, ⟨served, hserved, hsession, _, hwritten⟩, order, hboth, hanswered,
    hunanswered, hroomless⟩

/-- **A request that is not refused and not answered**, whatever the budget is. -/
theorem far_toggle_neither_refused_nor_answered :
    (∀ refusal, ¬farToggle.RefusedFor greetingProgram () refusal) ∧
      ∀ fuel, ((start ⟨.start {} {} 0, .initial⟩).handle fuel greetingProgram
        ⟨1, "request", .request farToggle⟩ ()).1 = .error .overflow := by
  constructor
  · -- it names a line, which is not line zero
    rintro _ (h | h | h | h | h)
    · exact h (by decide)
    · exact absurd h (by decide)
    · exact absurd h (by decide)
    · next hnone => exact hnone _ _ namesLine_farToggle
    · next hzero => exact absurd (namesLine_farToggle.unique hzero).2 (by decide)
  · intro fuel
    rw [handle_request]
    exact answer_beyond rfl namesLine_farToggle (by decide : Text.maxLength < Text.maxWord) fuel _ 1 ()

end Server

end BytecodeDebugger
