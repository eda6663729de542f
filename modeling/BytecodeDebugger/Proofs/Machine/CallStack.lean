import BytecodeDebugger.Proofs.Machine.Walk
import BytecodeDebugger.Proofs.Text.Lines
import BytecodeDebugger.Snapshot

/-!
# The call stack of a machine

A call stack is shown line by line, and it is made by cutting one text into lines again. The text is
rendered from counters, and these do not stand where they are shown: the counter of the innermost frame
is at the instruction that comes next, and the counter of every other frame is one behind the call that
it waits in. `Machine.Backtrace` says what should be shown, from the frames alone.

Main statement: `Machine.backtrace_callStackOf`, for the stack of a run in front of an instruction.
-/

namespace BytecodeDebugger

/-- **How a call in progress is shown**, at one of its instructions. -/
def Activation.shownAt (a : Activation) (pc : Nat) : String :=
  "at " ++ a.closure.proto.displayName ++ " (" ++ a.closure.file ++ ":" ++
    toString (a.closure.proto.lineAt pc) ++ ")"

/-- Neither the name of the function nor that of its file holds a line feed. -/
structure Closure.Unbroken (c : Closure) : Prop where
  name : '\n' ∉ c.proto.displayName.toList
  file : '\n' ∉ c.file.toList

namespace Machine

variable {m : Machine} {frame : FrameId} {callers : List FrameId} {a : Activation}

/-! ### What should be shown -/

/-- **What should be shown of frames that wait**, each for the frame just inside it: the call that it
waits in. -/
inductive Calling (m : Machine) : FrameId → List FrameId → List String → Prop where
  | nil (callee : FrameId) : Calling m callee [] []
  | cons (callee caller : FrameId) (callers : List FrameId) (lines : List String) (a b : Activation)
    (call : Instruction) (pc : Nat) (ha : m.frame? caller = some a) (hb : m.frame? callee = some b)
    (hpc : a.pc = pc + 1) (hcall : a.closure.proto.instructions[pc]? = some call)
    (hop : Op.ofCode call.code = .call) (hpending : a.pending = some (call.a.toNat, call.c))
    (hcallee : m.callable? (a.register call.a.toNat) = some (.closure b.closure))
    (rest : Calling m caller callers lines) :
    Calling m callee (caller :: callers) (a.shownAt pc :: lines)

/-- **What should be shown of a stack in front of an instruction**, innermost frame first: where it
stands, and one line for each frame. -/
inductive Backtrace (m : Machine) : List FrameId → SourceLocation → List String → Prop where
  | intro (frame : FrameId) (callers : List FrameId) (lines : List String) (a : Activation)
    (next : Instruction) (ha : m.frame? frame = some a)
    (hnext : a.closure.proto.instructions[a.pc]? = some next) (calling : m.Calling frame callers lines) :
    Backtrace m (frame :: callers) ⟨a.closure.file, a.closure.proto.lineAt a.pc⟩
      (a.shownAt a.pc :: lines)

/-- Frames that wait can be shown. -/
theorem exists_calling
    (h : (frame :: callers).IsChain fun callee caller => m.Waits caller callee) :
    ∃ lines, m.Calling frame callers lines := by
  -- outwards along the callers; each of them waits behind a CALL
  induction callers generalizing frame with
  | nil => exact ⟨[], .nil frame⟩
  | cons caller callers ih =>
    obtain ⟨⟨-, a, b, call, ha, hb, hpc, hcall, hop, hpending, hcallee⟩, hrest⟩ :=
      List.isChain_cons_cons.mp h
    obtain ⟨lines, hlines⟩ := ih hrest
    have hcounter : a.pc = a.pc - 1 + 1 := (Nat.succ_pred_eq_of_pos hpc).symm
    exact ⟨_, .cons frame caller callers lines a b call (a.pc - 1) ha hb hcounter hcall hop hpending
      hcallee hlines⟩

/-! ### Lines -/

/-- What is shown is one line of a text, also behind the blanks. -/
theorem isLine_shownAt (h : a.closure.Unbroken) (pc : Nat) : Text.IsLine ("    " ++ a.shownAt pc) := by
  have hchars : ("    " ++ a.shownAt pc).toList =
      "    at ".toList ++ a.closure.proto.displayName.toList ++ " (".toList ++ a.closure.file.toList ++
        ":".toList ++ Nat.toDigits 10 (a.closure.proto.lineAt pc) ++ [')'] := by
    simp [Activation.shownAt, Nat.repr]
  -- no line feed comes from the number of the line
  have hdigits : '\n' ∉ Nat.toDigits 10 (a.closure.proto.lineAt pc) := fun hmem =>
    absurd (Nat.isDigit_of_mem_toDigits (by decide) (by decide) hmem) (by decide)
  constructor
  · simp [hchars]
  · rw [hchars]
    simp [h.name, h.file, hdigits]
  · rw [hchars, List.getLast?_concat]
    decide

theorem unindent_append (line : String) : Snapshot.unindent ("    " ++ line) = line := by
  unfold Snapshot.unindent
  rw [String.toList_append]
  rw [if_pos (by simp [Snapshot.stackIndent])]
  simp [Snapshot.stackIndent]

/-- The line of a frame is rendered behind blanks. -/
theorem renderEntry_eq (ha : m.frame? frame = some a) (pc : Nat) :
    m.renderEntry ⟨frame, pc⟩ = "    " ++ a.shownAt pc := by
  unfold renderEntry
  dsimp only
  rw [ha]
  simp only [Activation.shownAt, ← String.append_assoc]
  rfl

/-- The counters of the frames that wait, as a snapshot takes them. -/
def waitingEntries (m : Machine) (callers : List FrameId) : List StackEntry :=
  (callers.filterMap fun id => (m.view? id).map fun f => (id, f.pc)).map fun p => ⟨p.1, p.2 - 1⟩

theorem waitingEntries_cons (ha : m.frame? frame = some a) (callers : List FrameId) :
    m.waitingEntries (frame :: callers) = ⟨frame, a.pc - 1⟩ :: m.waitingEntries callers := by
  simp [waitingEntries, view?, ha]

/-- The innermost frame is taken at its counter, and all others one instruction back. -/
theorem stackEntries_cons (fuel : Nat) (ha : m.frame? frame = some a) (callers : List FrameId) :
    Snapshot.stackEntries (interpreter fuel) m ((frame :: callers).map .call) =
      ⟨frame, a.pc⟩ :: m.waitingEntries callers := by
  have hframes : ((frame :: callers).map Resumable.call).filterMap Resumable.frame? =
      frame :: callers := by
    simp [List.filterMap_map, Function.comp_def, Resumable.frame?]
  unfold Snapshot.stackEntries
  rw [hframes]
  simp [waitingEntries, interpreter, view?, ha]

/-- **Frames that wait are rendered at their calls.** -/
theorem Calling.rendered {lines : List String} (h : m.Calling frame callers lines) :
    (m.waitingEntries callers).map m.renderEntry = lines.map ("    " ++ ·) := by
  induction h with
  | nil callee => rfl
  | cons callee caller callers lines a b call pc ha hb hpc hcall hop hpending hcallee rest ih =>
    rw [waitingEntries_cons ha, hpc, Nat.add_sub_cancel, List.map_cons, List.map_cons, ih,
      renderEntry_eq ha]

theorem Calling.isLine {lines : List String} (h : m.Calling frame callers lines)
    (hunbroken : ∀ f ∈ callers, ∀ a, m.frame? f = some a → a.closure.Unbroken) :
    ∀ line ∈ lines, Text.IsLine ("    " ++ line) := by
  -- outwards along the callers, whose names and files hold no line feed
  induction h with
  | nil callee => exact fun line hline => absurd hline List.not_mem_nil
  | cons callee caller callers lines a b call pc ha hb hpc hcall hop hpending hcallee rest ih =>
    intro line hline
    rcases List.mem_cons.mp hline with rfl | hline
    · exact isLine_shownAt (hunbroken caller List.mem_cons_self a ha) pc
    · exact ih (fun f hf => hunbroken f (List.mem_cons_of_mem _ hf)) line hline

/-! ### What is shown -/

/-- **The call stack that is shown is the right one** for the stack of a run in front of an
instruction, if no name breaks a line. -/
theorem backtrace_callStackOf (fuel : Nat) {site : Site}
    (hwaits : (frame :: callers).IsChain fun callee caller => m.Waits caller callee)
    (hahead : m.ahead (frame :: callers) = some site)
    (hunbroken : ∀ f ∈ frame :: callers, ∀ a, m.frame? f = some a → a.closure.Unbroken) :
    m.Backtrace (frame :: callers) ⟨site.file, site.line⟩
      (Snapshot.callStackOf (interpreter fuel) m ((frame :: callers).map .call)) := by
  obtain ⟨a, ha, hsite⟩ := Option.bind_eq_some_iff.mp hahead
  obtain ⟨next, hnext, rfl⟩ := Option.map_eq_some_iff.mp hsite
  obtain ⟨lines, hlines⟩ := exists_calling hwaits
  have hrendered : (⟨frame, a.pc⟩ :: m.waitingEntries callers).map m.renderEntry =
      (a.shownAt a.pc :: lines).map ("    " ++ ·) := by
    rw [List.map_cons, List.map_cons, renderEntry_eq ha, hlines.rendered]
  have hindented : ∀ line ∈ (a.shownAt a.pc :: lines).map ("    " ++ ·), Text.IsLine line := by
    intro line hline
    obtain ⟨shown, hshown, rfl⟩ := List.mem_map.mp hline
    rcases List.mem_cons.mp hshown with rfl | hshown
    · exact isLine_shownAt (hunbroken frame List.mem_cons_self a ha) a.pc
    · exact hlines.isLine (fun f hf => hunbroken f (List.mem_cons_of_mem _ hf)) shown hshown
  -- the rendering splits into its lines again, since no line holds a line feed
  have hstack : Snapshot.callStackOf (interpreter fuel) m ((frame :: callers).map .call) =
      a.shownAt a.pc :: lines := by
    unfold Snapshot.callStackOf
    rw [stackEntries_cons fuel ha]
    change (Text.lines ("\n".intercalate (List.map m.renderEntry _))).map Snapshot.unindent = _
    rw [hrendered, Text.lines_intercalate hindented, List.map_map]
    exact (List.map_congr_left fun line _ => unindent_append line).trans (List.map_id _)
  rw [hstack]
  exact .intro frame callers lines a next ha hnext hlines

end Machine

end BytecodeDebugger
