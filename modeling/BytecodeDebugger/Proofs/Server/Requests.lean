import BytecodeDebugger.Proofs.Server.Orders

/-!
# What requests ask for

What a request asks for is said by its command and by few of its arguments: the program that a launch
names, and the line of a file that a toggle names. The other arguments, and arguments of any other
shape, mean nothing.

Main statements:

* `Order.ofRequest_cases`, `Order.ofLaunch_cases`, `Order.ofToggle_cases` — what a request is read as;
* `Request.order_of_namesProgram`, `Request.order_of_namesLine` — a launch that names a program has it
  loaded, and a toggle that names a line is the order to toggle this line.
-/

namespace BytecodeDebugger

/-- The order that a request gives, with its program loaded, or why it is refused. -/
def Request.order {ω : Type} (read : String → StateM ω (Except FileFault String)) (r : Request) :
    StateM ω (Except Refusal (Order (Except LoadError Program))) :=
  match Order.ofRequest r with
  | .ok order => .ok <$> order.load read
  | .error refusal => pure (.error refusal)

namespace Request

/-- The commands that there are, under all their names. -/
def commands : List String := [
  "initialize", "launch", "toggleBreakpoint", "toggleStopAtBreakpoints", "stepIn", "stepOver", "next",
  "stepOut", "resume", "continue", "pause", "autoStep", "getCurrentState", "disconnect"]

/-- The argument under a key, none also when the arguments are no object. -/
def argument? (r : Request) (key : String) : Option Json := r.arguments.bind (Json.field? key)

/-- The request names a program. -/
def NamesProgram (r : Request) (path : String) : Prop := r.argument? "program" = some (.string path)

/-- The request names a line of a file; numbers with a fraction and negative ones are no lines. -/
def NamesLine (r : Request) (file : String) (line : Nat) : Prop :=
  r.argument? "fileId" = some (.string file) ∧ r.argument? "line" = some (Json.nat line)

end Request

namespace Order

variable {r : Request} {refusal : Refusal}

theorem field?_getD (r : Request) (key : String) :
    (r.arguments.getD .null).field? key = r.argument? key := by
  unfold Request.argument?
  cases r.arguments <;> rfl

/-- A launch names its program, or is refused because it does not. -/
theorem ofLaunch_cases (r : Request) :
    (∃ path stop, r.NamesProgram path ∧
      ofLaunch (r.arguments.getD .null) = .ok (.launch path stop)) ∨
    (∀ path, ¬ r.NamesProgram path) ∧ ofLaunch (r.arguments.getD .null) = .error .noProgram := by
  unfold ofLaunch Request.NamesProgram
  rw [field?_getD]
  cases r.argument? "program" with
  | none => exact .inr ⟨nofun, rfl⟩
  | some j =>
    -- a program is named by a text, and by nothing else
    cases j with
    | string path => exact .inl ⟨path, _, rfl, rfl⟩
    | null | bool | int | float | array | object => exact .inr ⟨nofun, rfl⟩

/-- A value that is no text is no name of a file. -/
theorem bind_string?_eq_some {j? : Option Json} {text : String} :
    j?.bind Json.string? = some text ↔ j? = some (.string text) := by
  cases j? with
  | none => exact ⟨nofun, nofun⟩
  | some j => cases j <;> simp [Json.string?]

/-- The lines are the numbers that are not negative. -/
theorem bind_nat?_eq_some {j? : Option Json} {n : Nat} :
    j?.bind Json.nat? = some n ↔ j? = some (Json.nat n) := by
  cases j? with
  | none => exact ⟨nofun, nofun⟩
  | some j =>
    -- of the values, only an integer from 0 on is a line
    cases j with
    | int i =>
      simp only [Option.bind_some, Json.nat?, Json.nat, Option.some.injEq, Json.int.injEq]
      split
      · simp only [Option.some.injEq]
        omega
      · simp only [reduceCtorEq, false_iff]
        omega
    | null | bool | float | string | array | object => simp [Json.nat?, Json.nat]

/-- A toggle names its line, or is refused because it does not. -/
theorem ofToggle_cases (r : Request) :
    (∃ file line, r.NamesLine file line ∧
      ofToggle (r.arguments.getD .null) = .ok (.toggleBreakpoint file line)) ∨
    (∀ file line, ¬ r.NamesLine file line) ∧ ofToggle (r.arguments.getD .null) = .error .noLine := by
  unfold ofToggle Request.NamesLine
  rw [field?_getD, field?_getD]
  -- both the file and the line have to be there, each of its own kind
  cases hfile : (r.argument? "fileId").bind Json.string? with
  | none =>
    refine .inr ⟨fun file line h => ?_, by split <;> simp_all⟩
    rw [bind_string?_eq_some.mpr h.1] at hfile
    cases hfile
  | some file =>
    cases hline : (r.argument? "line").bind Json.nat? with
    | none =>
      refine .inr ⟨fun file line h => ?_, rfl⟩
      rw [bind_nat?_eq_some.mpr h.2] at hline
      cases hline
    | some line =>
      exact .inl ⟨file, line, ⟨bind_string?_eq_some.mp hfile, bind_nat?_eq_some.mp hline⟩, rfl⟩

/-- The orders that need nothing but their command, and cannot be refused. -/
def Plain : Order String → Prop
  | .launch .. => False
  | .toggleBreakpoint .. => False
  | _ => True

/-- **What a request is read as**: a launch, a toggle, a plain order or no command. -/
theorem ofRequest_cases (r : Request) :
    r.command = "launch" ∧ ofRequest r = ofLaunch (r.arguments.getD .null) ∨
    r.command = "toggleBreakpoint" ∧ ofRequest r = ofToggle (r.arguments.getD .null) ∨
    r.command ∈ Request.commands ∧ r.command ≠ "launch" ∧ r.command ≠ "toggleBreakpoint" ∧
      (∃ order, ofRequest r = .ok order ∧ Plain order) ∨
    r.command ∉ Request.commands ∧ ofRequest r = .error (.unknown r.command) := by
  unfold ofRequest
  -- along the table of commands
  split
  case h_2 h => exact .inl ⟨h, rfl⟩
  case h_3 h => exact .inr (.inl ⟨h, rfl⟩)
  case h_15 => exact .inr (.inr (.inr ⟨by simp_all [Request.commands], rfl⟩))
  all_goals
    next h => exact .inr (.inr (.inl ⟨by rw [h]; decide, by rw [h]; decide, by rw [h]; decide, _,
      rfl, trivial⟩))

end Order

namespace Request

variable {ω : Type} {read : String → StateM ω (Except FileFault String)} {w : ω} {r : Request}

/-- The order of a launch has the program loaded, or says why it is not. -/
theorem order_of_launch {path : String} {stop : Bool}
    (h : Order.ofRequest r = .ok (.launch path stop)) :
    (r.order read w).1 = .ok (.launch (Program.load read path w).1 stop) := by
  unfold order
  rw [h]
  rfl

theorem order_of_toggle {file : String} {line : Nat}
    (h : Order.ofRequest r = .ok (.toggleBreakpoint file line)) :
    (r.order read w).1 = .ok (.toggleBreakpoint file line) := by
  unfold order
  rw [h]
  rfl

theorem order_of_error {refusal : Refusal} (h : Order.ofRequest r = .error refusal) :
    (r.order read w).1 = .error refusal := by
  unfold order
  rw [h]
  rfl

/-- A request is read as a launch exactly if that is its command. -/
theorem ofRequest_of_launch (h : r.command = "launch") :
    Order.ofRequest r = Order.ofLaunch (r.arguments.getD .null) := by
  rcases Order.ofRequest_cases r with ⟨-, hread⟩ | ⟨hother, -⟩ | ⟨-, hother, -⟩ | ⟨hunknown, -⟩
  · exact hread
  · rw [h] at hother
    exact absurd hother (by decide)
  · exact absurd h hother
  · rw [h] at hunknown
    exact absurd (by decide) hunknown

theorem ofRequest_of_toggle (h : r.command = "toggleBreakpoint") :
    Order.ofRequest r = Order.ofToggle (r.arguments.getD .null) := by
  rcases Order.ofRequest_cases r with ⟨hother, -⟩ | ⟨-, hread⟩ | ⟨-, -, hother, -⟩ | ⟨hunknown, -⟩
  · rw [h] at hother
    exact absurd hother (by decide)
  · exact hread
  · exact absurd h hother
  · rw [h] at hunknown
    exact absurd (by decide) hunknown

/-- Two names that a request gives its program are one. -/
theorem NamesProgram.unique {path path' : String} (h : r.NamesProgram path)
    (h' : r.NamesProgram path') : path = path' :=
  Json.string.inj (Option.some.inj (h.symm.trans h'))

theorem NamesLine.unique {file file' : String} {line line' : Nat} (h : r.NamesLine file line)
    (h' : r.NamesLine file' line') : file = file' ∧ line = line' :=
  ⟨Json.string.inj (Option.some.inj (h.1.symm.trans h'.1)),
    Int.ofNat.inj (Json.int.inj (Option.some.inj (h.2.symm.trans h'.2)))⟩

variable (read w) in
/-- **A launch that names a program** has it loaded. -/
theorem order_of_namesProgram (hcommand : r.command = "launch") {path : String}
    (hpath : r.NamesProgram path) :
    ∃ stop, (r.order read w).1 = .ok (.launch (Program.load read path w).1 stop) := by
  rcases Order.ofLaunch_cases r with ⟨path', stop, hpath', hread⟩ | ⟨hnone, -⟩
  · obtain rfl := hpath.unique hpath'
    exact ⟨stop, order_of_launch ((ofRequest_of_launch hcommand).trans hread)⟩
  · exact absurd hpath (hnone _)

/-- **A toggle that names a line** is the order to toggle this line. -/
theorem order_of_namesLine (hcommand : r.command = "toggleBreakpoint") {file : String} {line : Nat}
    (hline : r.NamesLine file line) : (r.order read w).1 = .ok (.toggleBreakpoint file line) := by
  rcases Order.ofToggle_cases r with ⟨file', line', hline', hread⟩ | ⟨hnone, -⟩
  · obtain ⟨rfl, rfl⟩ := hline.unique hline'
    exact order_of_toggle ((ofRequest_of_toggle hcommand).trans hread)
  · exact absurd hline (hnone _ _)

end Request

end BytecodeDebugger
