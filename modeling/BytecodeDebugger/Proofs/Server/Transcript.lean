import BytecodeDebugger.Proofs.Server.Requests
import BytecodeDebugger.Proofs.Session.Subscribers
import Mathlib.Data.List.Forall2

/-!
# What a server writes

A server is given messages and ticks; in between, its surroundings set the clock of its session and
take what was put down to be saved (`Server.Input`). What it has to write is said by comparison with
the same session without a client (`Session.followAll`): nothing is written for that session, and
nobody takes the lines that its program prints. Files are read through any effect with a state, so
that a file may read differently from time to time.

Main statement: `Server.told_once` — whatever a server is given, it goes as far as the session without
a client, and what it writes is faithful (`Server.Faithful`): the messages are numbered without gaps,
every request is answered once and first, and every event and every printed line is passed on once, in
order, and at the latest when the next tick or request is done.
-/

namespace BytecodeDebugger

/-! ### Driving a server -/

namespace Server

variable {ω : Type} (fuel : Nat) (read : String → StateM ω (Except FileFault String))

/-- **What a server is given**, and what is done to its session in between. -/
inductive Input where
  | message (message : Message)
  | tick (now : Time)
  /-- the clock is set -/
  | clock (now : Time)
  /-- what was put down to be saved is taken -/
  | saved

/-- What is written after this input passes on everything there is. -/
def Input.flushes : Input → Bool
  | .message ⟨_, _, .request _⟩ => true
  | .tick _ => true
  | _ => false

/-- Gives a server an input: what it writes, and the server afterwards. -/
def take (s : Server) : Input → StateM ω (Except Stop (List Message × Server))
  | .message message => do
    return (← s.handle fuel read message).map fun served => (served.written, served.server)
  | .tick now => return s.tick fuel now
  | .clock now =>
    return .ok ([], { s with session := s.session.setEngine (s.session.engine.setClock now) })
  | .saved =>
    return .ok ([], { s with session := s.session.setEngine s.session.engine.takeUnsaved.2 })

/-- **Gives a server several inputs**: what it writes for each, and the server in the end. -/
def takeAll (s : Server) : List Input → StateM ω (Except Stop (List (List Message) × Server))
  | [] => return .ok ([], s)
  | input :: inputs => do
    match ← s.take fuel read input with
    | .error reason => return .error reason
    | .ok (batch, s) => return (← s.takeAll inputs).map fun p => (batch :: p.1, p.2)

variable {fuel read} in
theorem takeAll_cons (s : Server) (input : Input) (inputs : List Input) (w : ω) :
    s.takeAll fuel read (input :: inputs) w =
      match (s.take fuel read input w).1 with
      | .error reason => (.error reason, (s.take fuel read input w).2)
      | .ok (batch, s') =>
        let rest := s'.takeAll fuel read inputs (s.take fuel read input w).2
        (rest.1.map fun p => (batch :: p.1, p.2), rest.2) := by
  rw [takeAll]
  change (match (s.take fuel read input w).1 with
    | .error reason => pure (.error reason)
    | .ok (batch, s') => return (← s'.takeAll fuel read inputs).map fun p => (batch :: p.1, p.2) :
    StateM ω _) (s.take fuel read input w).2 = _
  cases (s.take fuel read input w).1 <;> rfl

end Server

namespace Session

open Server (Input)

variable {ω : Type} (fuel : Nat) (read : String → StateM ω (Except FileFault String))

/-- Does what a request asks for. A refused one does nothing. -/
def comply (s : Session Machine) :
    Except Refusal (Order (Except LoadError Program)) → Except Stop (Answer × Session Machine)
  | .ok order => s.obey fuel order
  | .error refusal => .ok (.error refusal, s)

/-- What an input of a server does to its session. -/
def follow (s : Session Machine) : Input → StateM ω (Except Stop (Session Machine))
  | .message ⟨_, _, .request r⟩ => return (s.comply fuel (← r.order read)).map Prod.snd
  | .message _ => return .ok s
  | .tick now => return s.pollAt (Machine.interpreter fuel) now fuel
  | .clock now => return .ok (s.setEngine (s.engine.setClock now))
  | .saved => return .ok (s.setEngine s.engine.takeUnsaved.2)

/-- **What the inputs of a server do to a session without a client.** -/
def followAll (s : Session Machine) : List Input → StateM ω (Except Stop (Session Machine))
  | [] => return .ok s
  | input :: inputs => do
    match ← s.follow fuel read input with
    | .error reason => return .error reason
    | .ok s => s.followAll inputs

variable {fuel read} in
theorem followAll_cons (s : Session Machine) (input : Input) (inputs : List Input) (w : ω) :
    s.followAll fuel read (input :: inputs) w =
      match (s.follow fuel read input w).1 with
      | .error reason => (.error reason, (s.follow fuel read input w).2)
      | .ok s' => s'.followAll fuel read inputs (s.follow fuel read input w).2 := by
  rw [followAll]
  change (match (s.follow fuel read input w).1 with
    | .error reason => pure (.error reason)
    | .ok s' => s'.followAll fuel read inputs : StateM ω _) (s.follow fuel read input w).2 = _
  cases (s.follow fuel read input w).1 <;> rfl

end Session

/-! ### What is written -/

/-- A notice that passes on an event. The server has two notices of its own, under other names. -/
def Content.relayed? : Content → Option Notice
  | .notice n => if n.event = "output" ∨ n.event = "initialized" then none else some n
  | _ => none

/-- A notice that passes on a printed line. -/
def Content.printed? : Content → Option Notice
  | .notice n => if n.event = "output" then some n else none
  | _ => none

/-- The content is a notice. -/
def Content.isNotice : Content → Bool
  | .notice _ => true
  | _ => false

namespace Message

/-- The notices that pass on events. -/
def relayed (messages : List Message) : List Notice :=
  messages.filterMap fun m => m.content.relayed?

/-- The notices that pass on printed lines. -/
def printed (messages : List Message) : List Notice :=
  messages.filterMap fun m => m.content.printed?

theorem relayed_append (messages later : List Message) :
    relayed (messages ++ later) = relayed messages ++ relayed later := List.filterMap_append

theorem printed_append (messages later : List Message) :
    printed (messages ++ later) = printed messages ++ printed later := List.filterMap_append

/-- The message answers the request with this number and this command. -/
def Answers (m : Message) (requestSeq : Nat) (command : String) : Prop :=
  ∃ response, m.content = .response response ∧ response.requestSeq = requestSeq ∧
    response.command = command

end Message

/-- An event that is passed on is not taken for a notice of the server's own. -/
theorem Event.relayed_notice (e : Event) :
    (Content.notice e.notice).relayed? = some e.notice ∧
      (Content.notice e.notice).printed? = none := by
  -- no event goes by the name of a line of output or of the greeting
  have hname : e.notice.event ≠ "output" ∧ e.notice.event ≠ "initialized" := by
    change e.name ≠ "output" ∧ e.name ≠ "initialized"
    cases e <;> simp [Event.name]
  unfold Content.relayed? Content.printed?
  dsimp only
  rw [if_neg (not_or.mpr hname), if_neg hname.1]
  exact ⟨rfl, rfl⟩

namespace Server

/-- **What is written for an input**: for a request its answer and then notices, for a tick notices,
and nothing for any other message. -/
def Input.AnsweredBy : Input → List Message → Prop
  | .message ⟨requestSeq, _, .request r⟩, batch =>
    ∃ first rest, batch = first :: rest ∧ first.Answers requestSeq r.command ∧
      ∀ m ∈ rest, m.content.isNotice = true
  | .tick _, batch => ∀ m ∈ batch, m.content.isNotice = true
  | _, batch => batch = []

/-- Everything announced and printed was passed on. -/
def Settled (s : Server) : Prop :=
  s.subscription.pending s.session.engine.events = [] ∧ s.session.vm.output = #[]

/-- **A faithful transcript** of a server that was started over a session, beside the session without
a client. -/
structure Faithful (session : Session Machine) (inputs : List Input) (batches : List (List Message))
    (s : Server) (lone : Session Machine) : Prop where
  numbered : batches.flatten.map Message.seq = List.range' 1 batches.flatten.length
  answered : List.Forall₂ Input.AnsweredBy inputs batches
  engine : s.session.engine = lone.engine
  /-- the events passed on and those that are pending are the priming events and, in their order,
  those that were announced since the start, each under its name and with its body -/
  relayed : ∃ later, lone.engine.events.toList = session.engine.events.toList ++ later ∧
    Message.relayed batches.flatten ++
        (s.subscription.pending s.session.engine.events).map
          (fun e => ⟨e.name, e.body?.map Json.canonical⟩) =
      (session.engine.subscribe.priming ++ later).map fun e => ⟨e.name, e.body?.map Json.canonical⟩
  /-- the lines passed on and those that were not taken yet are all that the program printed, each with
  the end of its line -/
  printed : Message.printed batches.flatten ++ s.session.vm.output.toList.map
      (fun line => ⟨"output", some (.object [("output", .string (line ++ "\n"))])⟩) =
    lone.vm.output.toList.map fun line =>
      ⟨"output", some (.object [("output", .string (line ++ "\n"))])⟩
  settled : ∀ input, inputs.getLast? = some input → input.flushes = true → s.Settled

/-! ### Writing -/

section Writing

variable (s : Server) (contents : List Content)

theorem sendAll_server :
    (s.sendAll contents).2 = { s with seq := s.seq + contents.length } := by
  -- each message takes the next number
  induction contents generalizing s with
  | nil => rfl
  | cons content contents ih =>
    unfold sendAll
    dsimp only
    rw [ih]
    unfold send
    dsimp only
    rw [List.length_cons, Nat.add_comm contents.length, Nat.add_assoc]

theorem map_content_sendAll : (s.sendAll contents).1.map Message.content = contents := by
  induction contents generalizing s with
  | nil => rfl
  | cons content contents ih => exact congrArg (content :: ·) (ih _)

/-- Messages are numbered from the last one on. -/
theorem map_seq_sendAll :
    (s.sendAll contents).1.map Message.seq = List.range' (s.seq + 1) contents.length := by
  induction contents generalizing s with
  | nil => rfl
  | cons content contents ih => exact congrArg ((s.seq + 1) :: ·) (ih _)

theorem length_sendAll : (s.sendAll contents).1.length = contents.length := by
  rw [← List.length_map (f := Message.content), map_content_sendAll]

variable {s} in
/-- What is written goes on with the numbers. -/
theorem numbered_sendAll {told : List Message} (hseq : s.seq = told.length)
    (hnumbered : told.map Message.seq = List.range' 1 told.length) :
    (told ++ (s.sendAll contents).1).map Message.seq =
        List.range' 1 (told ++ (s.sendAll contents).1).length ∧
      (s.sendAll contents).2.seq = (told ++ (s.sendAll contents).1).length := by
  rw [List.map_append, List.length_append, hnumbered, map_seq_sendAll, length_sendAll,
    sendAll_server, hseq, Nat.add_comm told.length 1]
  exact ⟨List.range'_append_1, rfl⟩

theorem relayed_sendAll :
    Message.relayed (s.sendAll contents).1 = contents.filterMap Content.relayed? := by
  have hmap := List.filterMap_map (f := Message.content) (g := Content.relayed?)
    (l := (s.sendAll contents).1)
  rw [map_content_sendAll] at hmap
  exact hmap.symm

theorem printed_sendAll :
    Message.printed (s.sendAll contents).1 = contents.filterMap Content.printed? := by
  have hmap := List.filterMap_map (f := Message.content) (g := Content.printed?)
    (l := (s.sendAll contents).1)
  rw [map_content_sendAll] at hmap
  exact hmap.symm

/-- Notices are written for notices. -/
theorem isNotice_sendAll {contents : List Content} (h : ∀ c ∈ contents, c.isNotice = true) :
    ∀ m ∈ (s.sendAll contents).1, m.content.isNotice = true := by
  intro m hm
  refine h _ ?_
  rw [← map_content_sendAll s contents]
  exact List.mem_map_of_mem hm

theorem isNotice_flush : ∀ m ∈ s.flush.1, m.content.isNotice = true := by
  refine isNotice_sendAll _ fun c hc => ?_
  rcases List.mem_append.mp hc with hline | hevent
  · obtain ⟨line, -, rfl⟩ := List.mem_map.mp hline
    rfl
  · obtain ⟨e, -, rfl⟩ := List.mem_map.mp hevent
    rfl

theorem isNotice_afterwards (order : Except Refusal (Order (Except LoadError Program))) :
    ∀ c ∈ afterwards order, c.isNotice = true := by
  cases order with
  | error refusal => exact fun c hc => nomatch hc
  | ok order =>
    cases order with
    | introduce =>
      intro c hc
      rw [List.mem_singleton.mp hc]
      rfl
    | _ => exact fun c hc => nomatch hc

/-- The answer to a request and what follows at once pass on nothing. -/
theorem relayed_answer (response : Response)
    (order : Except Refusal (Order (Except LoadError Program))) :
    (.response response :: afterwards order).filterMap Content.relayed? = [] := by
  cases order with
  | error refusal => rfl
  | ok order => cases order <;> rfl

theorem printed_answer (response : Response)
    (order : Except Refusal (Order (Except LoadError Program))) :
    (.response response :: afterwards order).filterMap Content.printed? = [] := by
  cases order with
  | error refusal => rfl
  | ok order => cases order <;> rfl

theorem relayed_passedOn (lines : List String) (events : List Event) :
    (lines.map (Content.notice ∘ printedNotice) ++
      events.map (Content.notice ∘ Event.notice)).filterMap Content.relayed? =
      events.map Event.notice := by
  have hevents : Content.relayed? ∘ Content.notice ∘ Event.notice = some ∘ Event.notice :=
    funext fun e => e.relayed_notice.1
  -- a printed line comes from no event
  have hlines : lines.filterMap (Content.relayed? ∘ Content.notice ∘ printedNotice) = [] :=
    List.filterMap_eq_nil_iff.mpr fun line _ => rfl
  rw [List.filterMap_append, List.filterMap_map, List.filterMap_map, hevents, hlines,
    List.filterMap_eq_map, List.nil_append]

theorem printed_passedOn (lines : List String) (events : List Event) :
    (lines.map (Content.notice ∘ printedNotice) ++
      events.map (Content.notice ∘ Event.notice)).filterMap Content.printed? =
      lines.map printedNotice := by
  have hlines : Content.printed? ∘ Content.notice ∘ printedNotice = some ∘ printedNotice :=
    funext fun line => rfl
  have hevents : events.filterMap (Content.printed? ∘ Content.notice ∘ Event.notice) = [] :=
    List.filterMap_eq_nil_iff.mpr fun e _ => e.relayed_notice.2
  rw [List.filterMap_append, List.filterMap_map, List.filterMap_map, hevents, hlines,
    List.filterMap_eq_map, List.append_nil]

end Writing

/-- Answering a request: what it asks for is done, then the answer is written, and then what came of
it is passed on. -/
theorem answer_eq (fuel : Nat) (requestSeq : Nat) (command : String)
    (order : Except Refusal (Order (Except LoadError Program))) (s : Server) :
    s.answer fuel requestSeq command order = (s.session.comply fuel order).map fun p =>
      let sent := { s with session := p.2 }.sendAll
        (.response (respond requestSeq command p.1) :: afterwards order)
      ⟨sent.1 ++ sent.2.flush.1, stays order, sent.2.flush.2⟩ := by
  unfold Server.answer Session.comply
  cases order with
  | error refusal => rfl
  | ok order =>
    dsimp only
    cases s.session.obey fuel order <;> rfl

/-- A request is read, its program is loaded, and it is answered. -/
theorem handle_request {ω : Type} (fuel : Nat) (read : String → StateM ω (Except FileFault String))
    (s : Server) (requestSeq : Nat) (kind : String) (r : Request) (w : ω) :
    s.handle fuel read ⟨requestSeq, kind, .request r⟩ w =
      (s.answer fuel requestSeq r.command (r.order read w).1, (r.order read w).2) := by
  unfold handle Request.order
  dsimp only
  cases Order.ofRequest r <;> rfl

theorem take_request {ω : Type} (fuel : Nat) (read : String → StateM ω (Except FileFault String))
    (s : Server) (requestSeq : Nat) (kind : String) (r : Request) (w : ω) :
    s.take fuel read (.message ⟨requestSeq, kind, .request r⟩) w =
      ((s.answer fuel requestSeq r.command (r.order read w).1).map fun served =>
        (served.written, served.server), (r.order read w).2) := by
  have htaken : s.take fuel read (.message ⟨requestSeq, kind, .request r⟩) w =
      ((s.handle fuel read ⟨requestSeq, kind, .request r⟩ w).1.map fun served =>
        (served.written, served.server),
      (s.handle fuel read ⟨requestSeq, kind, .request r⟩ w).2) := rfl
  rw [htaken, handle_request]

theorem tick_eq (fuel : Nat) (now : Time) (s : Server) :
    s.tick fuel now = (s.session.pollAt (Machine.interpreter fuel) now fuel).map fun session =>
      { s with session }.flush := by
  unfold Server.tick
  cases s.session.pollAt (Machine.interpreter fuel) now fuel <;> rfl

end Server

/-! ### Beside a session without a client -/

/-- Lines were taken from the first machine that the second still has. -/
def Reporting.behind (lines : Array String) : Reporting where
  printed o o' := o' = lines ++ o
  traced := Eq
  push line h := by rw [h, Array.append_push]
  refl _ := rfl

/-- Who takes what was printed falls behind. -/
theorem Machine.Resembles.takeOutput {lines : Array String} {m m' : Machine}
    (h : m.Resembles (.behind lines) m') :
    m.takeOutput.2.Resembles (.behind (lines ++ m.output)) m' := by
  cases h with
  | @intro o t hprinted htraced =>
    have hlines : o = (lines ++ m.output) ++ #[] := by
      rw [Array.append_empty]
      exact hprinted
    exact .intro (m := m.takeOutput.2) (R := .behind (lines ++ m.output)) hlines htraced

/-- Nothing is pending for who has caught up. -/
theorem Subscription.pending_of_seen (priming : List Event) (events : Array Event) :
    (Subscription.mk priming events.size).pending events = priming := by
  unfold pending
  rw [← Array.length_toList, List.drop_length, List.append_nil]

namespace Server

variable {session lone : Session Machine} {told : List Message} {s : Server}

/-- **A server beside a session without a client**, after messages were written. -/
structure Abreast (session : Session Machine) (told : List Message) (s : Server)
    (lone : Session Machine) : Prop where
  numbered : told.map Message.seq = List.range' 1 told.length
  seq : s.seq = told.length
  engine : lone.engine = s.session.engine
  seen : s.subscription.seen ≤ s.session.engine.events.size
  relayed : ∃ later, s.session.engine.events.toList = session.engine.events.toList ++ later ∧
    Message.relayed told ++ (s.subscription.pending s.session.engine.events).map Event.notice =
      (session.engine.subscribe.priming ++ later).map Event.notice
  printed : ∃ lines, s.session.vm.Resembles (.behind lines) lone.vm ∧
    Message.printed told = lines.toList.map printedNotice

namespace Abreast

theorem start (session : Session Machine) : Abreast session [] (.start session) session where
  numbered := rfl
  seq := rfl
  engine := rfl
  seen := Nat.le_refl _
  relayed := by
    -- whoever subscribes before the first event has seen them all
    refine ⟨[], (List.append_nil _).symm, ?_⟩
    rw [List.append_nil]
    exact congrArg (List.map Event.notice) (Subscription.pending_of_seen _ _)
  printed := by
    refine ⟨#[], ?_, rfl⟩
    exact .intro (R := .behind #[]) Array.empty_append.symm rfl

/-- **An operation** that does not depend on what was printed, and that tells what it changes. -/
theorem operate (h : Abreast session told s lone) {x y : Except Stop (Session Machine)}
    (hsame : ∀ R : Reporting, s.session.Resembles (Machine.Resembles R) lone →
      Outcomes (Session.Resembles (Machine.Resembles R)) x y)
    (htold : ∀ session', x = .ok session' → s.session.engine.Tells session'.engine) :
    Outcomes (fun session' lone' => Abreast session told { s with session := session' } lone')
      x y := by
  obtain ⟨lines, hbehind, hprinted⟩ := h.printed
  -- the lines that were taken stay taken, whatever the operation prints
  have hboth := hsame _ ⟨h.engine, hbehind⟩
  cases hboth with
  | stop reason => exact .stop reason
  | @done session' lone' h' =>
    -- events are only ever added, so that what was seen stays a part from the front
    have hgrown := (htold session' rfl).size_events
    obtain ⟨news, hnews, -⟩ := htold session' rfl
    obtain ⟨later, hlater, hrelayed⟩ := h.relayed
    refine .done
      { numbered := h.numbered
        seq := h.seq
        engine := h'.engine
        seen := ?_
        relayed := ⟨later ++ news, ?_, ?_⟩
        printed := ⟨lines, h'.vm, hprinted⟩ }
    · exact h.seen.trans hgrown
    · -- the client is behind by what it was before, and by the news
      rw [hnews, hlater, List.append_assoc]
    · dsimp only
      rw [Subscription.pending_append h.seen hnews, List.map_append, ← List.append_assoc, hrelayed,
        ← List.map_append, List.append_assoc]

/-- Messages that pass on nothing. -/
theorem sendAll (h : Abreast session told s lone) {contents : List Content}
    (hrelayed : contents.filterMap Content.relayed? = [])
    (hprinted : contents.filterMap Content.printed? = []) :
    Abreast session (told ++ (s.sendAll contents).1) (s.sendAll contents).2 lone := by
  -- the numbers are the only thing of the server that sending changes
  obtain ⟨hnumbered, hseq⟩ := numbered_sendAll contents h.seq h.numbered
  have hrest : Message.relayed (told ++ (s.sendAll contents).1) = Message.relayed told ∧
      Message.printed (told ++ (s.sendAll contents).1) = Message.printed told := by
    rw [Message.relayed_append, Message.printed_append, relayed_sendAll, printed_sendAll, hrelayed,
      hprinted, List.append_nil, List.append_nil]
    exact ⟨rfl, rfl⟩
  refine ⟨hnumbered, hseq, ?_, ?_, ?_, ?_⟩
  all_goals rw [sendAll_server]
  · exact h.engine
  · exact h.seen
  · rw [hrest.1]
    exact h.relayed
  · rw [hrest.2]
    exact h.printed

/-- **What is pending is passed on**, and nothing is left. -/
theorem flush (h : Abreast session told s lone) :
    Abreast session (told ++ s.flush.1) s.flush.2 lone ∧ s.flush.2.Settled := by
  let events := s.session.engine.events
  let taken : Server :=
    { s with
      session := { s.session with vm := s.session.vm.takeOutput.2 }
      subscription := .caughtUp events }
  let contents := s.session.vm.output.toList.map (Content.notice ∘ printedNotice) ++
    (s.subscription.pending events).map (Content.notice ∘ Event.notice)
  -- the server takes what it passes on before it sends it
  have hflush : s.flush = taken.sendAll contents := rfl
  have hnothing : (Subscription.caughtUp events).pending events = [] :=
    Subscription.pending_of_seen [] events
  -- of what is sent, the events are those the client had not seen and the lines those printed since
  have hrelayed : contents.filterMap Content.relayed? =
      (s.subscription.pending events).map Event.notice := relayed_passedOn _ _
  have hprinted : contents.filterMap Content.printed? =
      s.session.vm.output.toList.map printedNotice := printed_passedOn _ _
  obtain ⟨hnumbered, hseq⟩ := numbered_sendAll (s := taken) contents h.seq h.numbered
  obtain ⟨later, hlater, htold⟩ := h.relayed
  obtain ⟨lines, hbehind, hlines⟩ := h.printed
  rw [hflush]
  refine ⟨⟨hnumbered, hseq, ?_, ?_, ?_, ?_⟩, ?_⟩
  all_goals rw [sendAll_server]
  · exact h.engine
  · exact Nat.le_refl _
  · refine ⟨later, hlater, ?_⟩
    rw [Message.relayed_append, relayed_sendAll, hrelayed, htold]
    exact (congrArg (_ ++ List.map Event.notice ·) hnothing).trans (List.append_nil _)
  · -- the lone session keeps all it ever printed, and the server only what it has not passed on
    refine ⟨lines ++ s.session.vm.output, hbehind.takeOutput, ?_⟩
    rw [Message.printed_append, printed_sendAll, hprinted, hlines, Array.toList_append,
      List.map_append]
  · exact ⟨hnothing, rfl⟩

/-- **A request is answered**, first and once. -/
theorem answer (h : Abreast session told s lone) (fuel : Nat) (requestSeq : Nat) (command : String)
    (order : Except Refusal (Order (Except LoadError Program))) :
    Outcomes (fun served lone' => Abreast session (told ++ served.written) served.server lone' ∧
        served.server.Settled ∧
        ∃ first rest, served.written = first :: rest ∧ first.Answers requestSeq command ∧
          ∀ m ∈ rest, m.content.isNotice = true)
      (s.answer fuel requestSeq command order) ((lone.comply fuel order).map Prod.snd) := by
  -- the order is obeyed first, side by side with the lone session
  have hobeyed : Outcomes (fun session' lone' =>
        Abreast session told { s with session := session' } lone')
      ((s.session.comply fuel order).map Prod.snd) ((lone.comply fuel order).map Prod.snd) := by
    cases order with
    | error refusal => exact .done h
    | ok order =>
      refine h.operate (fun R hsame => hsame.obey fuel order) fun session' hs' => ?_
      obtain ⟨p, hobey, rfl⟩ := Attended.exists_of_map_eq_ok hs'
      exact Session.tells_obey hobey
  rw [answer_eq]
  refine hobeyed.of_map.map_left ?_
  rintro ⟨result, session'⟩ lone' h'
  -- the response comes next; what the order printed or announced is passed on behind it
  have hsent := h'.sendAll (relayed_answer (respond requestSeq command result) order)
    (printed_answer (respond requestSeq command result) order)
  obtain ⟨hflushed, hsettled⟩ := hsent.flush
  rw [List.append_assoc] at hflushed
  refine ⟨hflushed, hsettled, _, _, rfl, ⟨_, rfl, ?_, ?_⟩, ?_⟩
  · cases result <;> rfl
  · cases result <;> rfl
  · intro m hm
    rcases List.mem_append.mp hm with hm | hm
    · exact isNotice_sendAll _ (isNotice_afterwards order) m hm
    · exact isNotice_flush _ m hm

/-- A tick. -/
theorem tick (h : Abreast session told s lone) (fuel : Nat) (now : Time) :
    Outcomes (fun p lone' => Abreast session (told ++ p.1) p.2 lone' ∧ p.2.Settled ∧
        ∀ m ∈ p.1, m.content.isNotice = true)
      (s.tick fuel now) (lone.pollAt (Machine.interpreter fuel) now fuel) := by
  have hpolled := h.operate (fun R hsame => hsame.pollAt (Machine.respects fuel R) now fuel)
    fun session' hs' => Session.tells_pollAt hs'
  rw [tick_eq]
  refine hpolled.map_left fun session' lone' h' => ?_
  obtain ⟨hflushed, hsettled⟩ := h'.flush
  exact ⟨hflushed, hsettled, isNotice_flush _⟩

/-- **One input.** -/
theorem take (h : Abreast session told s lone) {ω : Type} (fuel : Nat)
    (read : String → StateM ω (Except FileFault String)) (input : Input) (w : ω) :
    Outcomes (fun p lone' => Abreast session (told ++ p.1) p.2 lone' ∧ input.AnsweredBy p.1 ∧
        (input.flushes = true → p.2.Settled))
      (s.take fuel read input w).1 (lone.follow fuel read input w).1 ∧
    (s.take fuel read input w).2 = (lone.follow fuel read input w).2 := by
  -- two shapes of an input that nothing is written for
  have hquiet : ∀ {session' lone' : Session Machine},
      Abreast session told { s with session := session' } lone' →
      Abreast session (told ++ []) { s with session := session' } lone' := by
    intro session' lone' h'
    rw [List.append_nil]
    exact h'
  have hsets : ∀ f : Engine → Engine, (∀ e : Engine, e.Tells (f e)) →
      Outcomes (fun (p : List Message × Server) lone' => Abreast session (told ++ p.1) p.2 lone' ∧
          p.1 = [])
        (.ok ([], { s with session := s.session.setEngine (f s.session.engine) }))
        (.ok (lone.setEngine (f lone.engine))) := by
    intro f hf
    have hset : Outcomes (fun session' lone' =>
          Abreast session told { s with session := session' } lone')
        (.ok (s.session.setEngine (f s.session.engine))) (.ok (lone.setEngine (f lone.engine))) := by
      refine h.operate (fun R hsame => ?_) fun session' hs' => ?_
      · rw [hsame.engine]
        exact .done (hsame.setEngine _)
      · cases hs'
        exact hf _
    refine Outcomes.map_left (f := fun session' => ([], { s with session := session' })) hset ?_
    exact fun session' lone' h' => ⟨hquiet h', rfl⟩
  cases input with
  | message message =>
    obtain ⟨requestSeq, kind, content⟩ := message
    cases content with
    -- what is no request is dropped
    | response response => exact ⟨.done ⟨hquiet h, rfl, fun h => nomatch h⟩, rfl⟩
    | notice notice => exact ⟨.done ⟨hquiet h, rfl, fun h => nomatch h⟩, rfl⟩
    | request r =>
      rw [take_request]
      refine ⟨(h.answer fuel requestSeq r.command (r.order read w).1).map_left ?_, rfl⟩
      rintro served lone' ⟨hserved, hsettled, hanswered⟩
      exact ⟨hserved, hanswered, fun _ => hsettled⟩
  | tick now =>
    refine ⟨(h.tick fuel now).mono ?_, rfl⟩
    rintro p lone' ⟨hticked, hsettled, hnotices⟩
    exact ⟨hticked, hnotices, fun _ => hsettled⟩
  | clock now =>
    refine ⟨(hsets (·.setClock now) fun _ => .silent rfl rfl).mono ?_, rfl⟩
    exact fun p lone' hset => ⟨hset.1, hset.2, fun h => nomatch h⟩
  | saved =>
    refine ⟨(hsets (·.takeUnsaved.2) fun _ => .silent rfl rfl).mono ?_, rfl⟩
    exact fun p lone' hset => ⟨hset.1, hset.2, fun h => nomatch h⟩

/-- **Several inputs.** Without any the server stays as it is. -/
theorem takeAll (h : Abreast session told s lone) {ω : Type} (fuel : Nat)
    (read : String → StateM ω (Except FileFault String)) (inputs : List Input) (w : ω) :
    Outcomes (fun p lone' => Abreast session (told ++ p.1.flatten) p.2 lone' ∧
        List.Forall₂ Input.AnsweredBy inputs p.1 ∧ (inputs = [] → p.2 = s) ∧
        ∀ input, inputs.getLast? = some input → input.flushes = true → p.2.Settled)
      (s.takeAll fuel read inputs w).1 (lone.followAll fuel read inputs w).1 ∧
    (s.takeAll fuel read inputs w).2 = (lone.followAll fuel read inputs w).2 := by
  induction inputs generalizing told s lone w with
  | nil =>
    refine ⟨.done ⟨?_, .nil, fun _ => rfl, fun input h => nomatch h⟩, rfl⟩
    rw [List.flatten_nil, List.append_nil]
    exact h
  | cons input inputs ih =>
    obtain ⟨hfirst, hstate⟩ := h.take fuel read input w
    rw [takeAll_cons, Session.followAll_cons, hstate]
    -- from here on only the outcomes count, and the state that both leave for the files
    generalize (s.take fuel read input w).1 = x at hfirst
    generalize (lone.follow fuel read input w).1 = y at hfirst
    generalize (lone.follow fuel read input w).2 = w'
    cases hfirst with
    | stop reason => exact ⟨.stop reason, rfl⟩
    | @done p lone' hdone =>
      obtain ⟨batch, s'⟩ := p
      obtain ⟨h', hanswered, hsettled⟩ := hdone
      obtain ⟨hrest, hstate'⟩ := ih h' w'
      refine ⟨hrest.map_left ?_, hstate'⟩
      rintro ⟨batches, s''⟩ lone'' ⟨h'', hanswers, hstays, hsettles⟩
      refine ⟨?_, .cons hanswered hanswers, (fun h => nomatch h), ?_⟩
      · rw [List.flatten_cons, ← List.append_assoc]
        exact h''
      · intro last hlast hflushes
        cases inputs with
        | nil =>
          -- the first input is the last one
          cases hlast
          have hsame : s'' = s' := hstays rfl
          rw [hsame]
          exact hsettled hflushes
        | cons next inputs => exact hsettles last hlast hflushes

/-- **Beside the session without a client a transcript is faithful.** -/
theorem faithful {inputs : List Input} {batches : List (List Message)}
    (h : Abreast session ([] ++ batches.flatten) s lone)
    (hanswered : List.Forall₂ Input.AnsweredBy inputs batches)
    (hsettled : ∀ input, inputs.getLast? = some input → input.flushes = true → s.Settled) :
    Faithful session inputs batches s lone := by
  rw [List.nil_append] at h
  -- what is still to be sent belongs behind the batches that have been
  obtain ⟨later, hlater, hrelayed⟩ := h.relayed
  obtain ⟨lines, hbehind, hprinted⟩ := h.printed
  exact
    { numbered := h.numbered
      answered := hanswered
      engine := h.engine.symm
      relayed := ⟨later, h.engine ▸ hlater, hrelayed⟩
      printed := by
        change _ ++ List.map printedNotice _ = List.map printedNotice _
        rw [hprinted, ← List.map_append, ← Array.toList_append]
        exact congrArg (fun o : Array String => o.toList.map printedNotice) hbehind.printed.symm
      settled := hsettled }

end Abreast

/-! ### Without an answer -/

/-- **A toggle of a line beyond every list has no answer.** -/
theorem answer_beyond {ω : Type} {read : String → StateM ω (Except FileFault String)} {r : Request}
    {file : String} {line : Nat} (hcommand : r.command = "toggleBreakpoint")
    (hline : r.NamesLine file line) (hbeyond : Text.maxLength < line) (fuel : Nat) (s : Server)
    (requestSeq : Nat) (w : ω) :
    s.answer fuel requestSeq r.command (r.order read w).1 = .error .overflow := by
  rw [answer_eq, Request.order_of_namesLine hcommand hline]
  unfold Session.comply
  dsimp only
  rw [Session.obey_beyond _ hbeyond]
  rfl

/-- An input that stops the server stops it behind any others, too. -/
theorem takeAll_stops {ω : Type} {fuel : Nat} {read : String → StateM ω (Except FileFault String)}
    {input : Input} {reason : Stop} (hstops : ∀ (s : Server) w, (s.take fuel read input w).1 =
      .error reason) {s : Server} {before : List Input} {w : ω} {p : List (List Message) × Server}
    (hp : (s.takeAll fuel read before w).1 = .ok p) (after : List Input) :
    (s.takeAll fuel read (before ++ input :: after) w).1 = .error reason := by
  -- over what is taken before it; whatever server that leaves stops on the input
  induction before generalizing s w p with
  | nil =>
    rw [List.nil_append, takeAll_cons, hstops s w]
  | cons first before ih =>
    rw [List.cons_append, takeAll_cons]
    rw [takeAll_cons] at hp
    cases hfirst : (s.take fuel read first w).1 with
    | error reason' =>
      rw [hfirst] at hp
      cases hp
    | ok q =>
      rw [hfirst] at hp
      obtain ⟨rest, hrest, -⟩ := Attended.exists_of_map_eq_ok hp
      have hend := ih hrest
      dsimp only
      rw [hend]
      rfl

/-! ### The main result -/

/-- **A server tells everything once**, whatever it is given, over any session and whichever way files
are read. It comes to its end exactly if the session does without a client, with the same files read,
and stops for the same reason otherwise. What it writes is faithful then: the messages are numbered
from 1 without gaps; each request has one answer, with its number and its command, before everything
else that is written for it, and other messages have none; the events that a subscriber from the start
has to receive are passed on in their order, the priming events first, and so are the lines that the
program prints; and after a tick or a request nothing is left to pass on.

A request to toggle a line that no list can be long enough for has no answer: behind whatever the server
took before, it is the end. -/
theorem told_once (fuel : Nat) {ω : Type} (read : String → StateM ω (Except FileFault String))
    (session : Session Machine) (inputs : List Input) (w : ω) :
    Outcomes (fun p lone => Faithful session inputs p.1 p.2 lone)
      ((start session).takeAll fuel read inputs w).1 (session.followAll fuel read inputs w).1 ∧
    ((start session).takeAll fuel read inputs w).2 = (session.followAll fuel read inputs w).2 ∧
    ∀ p, ((start session).takeAll fuel read inputs w).1 = .ok p →
      ∀ requestSeq kind r file line later, r.command = "toggleBreakpoint" → r.NamesLine file line →
        Text.maxLength < line →
        ((start session).takeAll fuel read
          (inputs ++ .message ⟨requestSeq, kind, .request r⟩ :: later) w).1 = .error .overflow := by
  obtain ⟨hboth, hsame⟩ := (Abreast.start session).takeAll fuel read inputs w
  refine ⟨hboth.mono ?_, hsame, ?_⟩
  · -- the two runs end together, and what is known of them side by side is what was promised
    rintro ⟨batches, s⟩ lone ⟨h, hanswered, -, hsettled⟩
    exact h.faithful hanswered hsettled
  · -- a line without room for its flag stops the server, behind whatever was taken
    intro p hp requestSeq kind r file line later hcommand hline hbeyond
    refine takeAll_stops (fun s w => ?_) hp later
    rw [take_request, answer_beyond hcommand hline hbeyond]
    rfl

/-- A directory with one file, a program that prints a line. -/
def greetingProgram (path : String) : StateM Unit (Except FileFault String) :=
  pure <| if path = "a.json" then
    .ok ("\x7b\"main\":\x7b\"constants\":[\"print\",\"hi\"],\"linePositions\":[1,1,1,2]," ++
      "\"instructions\":[[5,0,0],[1,1,1],[28,0,2,1],[30,0,1]]\x7d\x7d")
  else .error .notFound

/-- A client that introduces itself, sends a notice, launches the program with a stop, waits, lets it
go on, and asks for something unknown. -/
def greetedClient : List Input := [
  .message ⟨7, "request", .request ⟨"initialize", none⟩⟩,
  .message ⟨8, "event", .notice ⟨"output", none⟩⟩,
  .message ⟨9, "request", .request ⟨"launch",
    some (.object [("program", .string "a.json"), ("stopOnEntry", .bool true)])⟩⟩,
  .tick 5,
  .message ⟨10, "request", .request ⟨"continue", none⟩⟩,
  .message ⟨11, "request", .request ⟨"rewind", none⟩⟩]

/-- A request for a breakpoint on the last line that a number of 64 bits can name. -/
def farToggle : Request :=
  ⟨"toggleBreakpoint",
    some (.object [("fileId", .string "a.lua"), ("line", .int 18446744073709551615)])⟩

theorem namesLine_farToggle : farToggle.NamesLine "a.lua" Text.maxWord := ⟨by rfl, by rfl⟩

/-- A program is launched, stops, goes on and prints, and the client is told of it. A toggle of a line
that is too far is the end. -/
theorem told_of_a_greeting : ∃ batches s lone,
    ((start ⟨.start {} {} 0, .initial⟩).takeAll 10 greetingProgram greetedClient ()).1 =
      .ok (batches, s) ∧
    (Session.followAll 10 greetingProgram ⟨.start {} {} 0, .initial⟩ greetedClient ()).1 = .ok lone ∧
    Faithful ⟨.start {} {} 0, .initial⟩ greetedClient batches s lone ∧
    batches.map List.length = [4, 0, 3, 1, 5, 1] ∧
    (Message.relayed batches.flatten).map Notice.event =
      ["breakpoints-updated", "stop-at-breakpoints-updated", "lua-load-failed", "state-updated",
        "state-updated", "state-updated", "state-updated", "resumed"] ∧
    lone.vm.output = #["hi"] ∧
    Text.maxLength < Text.maxWord ∧
    ((start ⟨.start {} {} 0, .initial⟩).takeAll 10 greetingProgram
      (greetedClient ++ [.message ⟨12, "request", .request farToggle⟩]) ()).1 = .error .overflow := by
  have hruns : ((start ⟨.start {} {} 0, .initial⟩).takeAll 10 greetingProgram greetedClient ()).1.map
      (fun p => (p.1.map List.length, (Message.relayed p.1.flatten).map Notice.event)) =
        .ok ([4, 0, 3, 1, 5, 1],
          ["breakpoints-updated", "stop-at-breakpoints-updated", "lua-load-failed", "state-updated",
            "state-updated", "state-updated", "state-updated", "resumed"]) := by
    decide +kernel
  have halone : (Session.followAll 10 greetingProgram ⟨.start {} {} 0, .initial⟩
      greetedClient ()).1.map (fun lone => lone.vm.output) = .ok #["hi"] := by
    decide +kernel
  -- the two runs were computed each for itself; the general theorem joins them
  obtain ⟨⟨batches, s⟩, hbatches, hwritten⟩ := Attended.exists_of_map_eq_ok hruns
  obtain ⟨hlengths, hevents⟩ := Prod.mk.inj hwritten
  obtain ⟨hboth, -, hends⟩ := told_once 10 greetingProgram ⟨.start {} {} 0, .initial⟩ greetedClient ()
  obtain ⟨lone, hlone, hfaithful⟩ := hboth.of_ok hbatches
  rw [hlone] at halone
  have hfar : Text.maxLength < Text.maxWord := by decide
  exact ⟨batches, s, lone, hbatches, hlone, hfaithful, hlengths, hevents, Except.ok.inj halone, hfar,
    hends _ hbatches 12 "request" farToggle "a.lua" _ [] rfl namesLine_farToggle hfar⟩

/-- **A request without an answer**, whatever the budget is. -/
theorem far_toggle_unanswered :
    ¬ ∃ fuel batches s, ((start ⟨.start {} {} 0, .initial⟩).takeAll fuel greetingProgram
        [.message ⟨1, "request", .request farToggle⟩] ()).1 = .ok (batches, s) ∧
      List.Forall₂ Input.AnsweredBy [.message ⟨1, "request", .request farToggle⟩] batches := by
  rintro ⟨fuel, batches, s, hbatches, -⟩
  rw [takeAll_cons, take_request,
    answer_beyond rfl namesLine_farToggle (by decide : Text.maxLength < Text.maxWord)] at hbatches
  cases hbatches

end Server

end BytecodeDebugger
