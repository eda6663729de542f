import BytecodeDebugger.Config
import BytecodeDebugger.Json.Basic
import BytecodeDebugger.Text.Lines

/-!
# Snapshots of a stop

What a client sees of a stopped program: the globals, the locals and upvalues of the innermost
frame, and the call stack. Numbers stay numbers, tables show their fields one level deep, and
everything else is shown as text.
-/

namespace BytecodeDebugger

/-- A number, or the text of anything else. -/
inductive Plain where
  | number (x : Float)
  | text (s : String)

/-- **A value as shown**: a table with the text of its own and its fields, or a plain value. -/
inductive Shown where
  | plain (p : Plain)
  | table (caption : String) (fields : SortedMap String Plain)

/-- Names and what they are shown as. -/
abbrev Scene := SortedMap String Shown

/-- **What a stop shows.** -/
structure Snapshot where
  globals : Scene
  locals : Scene
  upvalues : Scene
  /-- innermost first -/
  callStack : List String

/-- A value at the second level. -/
def Value.plain : Value → Plain
  | .number x => .number x
  | v => .text v.text

/-- A value as shown, given the fields of tables. -/
def Value.shown (config : Config) (fields : TableId → List (String × Value)) : Value → Shown
  | .table id =>
    -- the interpreter's own bookkeeping is no field of the program's
    let visible := (fields id).filter fun p => p.1 ≠ config.bookkeepingKey
    .table (Value.table id).text (SortedMap.ofList (visible.map fun p => (p.1, p.2.plain)))
  | v => .plain v.plain

/-- Whether a local is live in front of an instruction. -/
def LocalVar.isLive (l : LocalVar) (pc : Nat) : Bool := l.startPc ≤ pc && pc < l.endPc

/-- The live locals with their registers: each takes the next one. -/
def liveSlots (pc : Nat) (locals : List LocalVar) : List (String × Nat) :=
  ((locals.filter (·.isLive pc)).map (·.name)).zipIdx

namespace Snapshot

variable {σ : Type}

/-- Shows named values; of several with one name the last. -/
def scene (config : Config) (I : Interpreter σ) (s : σ) (named : List (String × Value)) : Scene :=
  SortedMap.ofList (named.map fun p => (p.1, p.2.shown config (I.fields s)))

/-- The globals that are not hidden. -/
def globalsOf (config : Config) (I : Interpreter σ) (s : σ) : Scene :=
  scene config I s ((I.globals s).filter fun p => !config.hides p.1)

/-- The live locals of a frame. -/
def localsOf (config : Config) (I : Interpreter σ) (s : σ) (f : FrameView) : Scene :=
  scene config I s ((liveSlots f.pc f.locals).map fun p => (p.1, f.register p.2))

/-- The upvalues of a frame. -/
def upvaluesOf (config : Config) (I : Interpreter σ) (s : σ) (f : FrameView) : Scene :=
  scene config I s f.upvalues

/-- The frames of a stack that exist, innermost first: the innermost at its next instruction, every
other at the call it is waiting for, one instruction back. -/
def stackEntries (I : Interpreter σ) (s : σ) (stack : List Resumable) : List StackEntry :=
  let live := (stack.filterMap Resumable.frame?).filterMap fun id =>
    (I.frame? s id).map fun f => (id, f.pc)
  match live with
  | [] => []
  | (id, pc) :: callers => ⟨id, pc⟩ :: callers.map fun p => ⟨p.1, p.2 - 1⟩

/-- The blanks in front of every line of a rendered stack. -/
def stackIndent : List Char := [' ', ' ', ' ', ' ']

/-- A line without the blanks in front, if they are all there. -/
def unindent (line : String) : String :=
  if stackIndent.isPrefixOf line.toList then String.ofList (line.toList.drop stackIndent.length)
  else line

/-- The call stack, one line for every frame. -/
def callStackOf (I : Interpreter σ) (s : σ) (stack : List Resumable) : List String :=
  match stackEntries I s stack with
  | [] => []
  | entries => (Text.lines (I.renderStack s entries)).map unindent

/-- **The snapshot of a stack of parked frames**, given innermost first. -/
def build (config : Config) (I : Interpreter σ) (s : σ) (stack : List Resumable) : Snapshot :=
  -- coroutines show no frame
  let innermost? := (stack.filterMap Resumable.frame?).head?.bind (I.frame? s)
  { globals := globalsOf config I s
    locals := (innermost?.map (localsOf config I s)).getD .empty
    upvalues := (innermost?.map (upvaluesOf config I s)).getD .empty
    callStack := callStackOf I s stack }

end Snapshot

/-- A plain value as JSON. -/
def Plain.toJson : Plain → Json
  | .number x => Json.ofFloat x
  | .text s => .string s

/-- A shown value as JSON. -/
def Shown.toJson : Shown → Json
  | .plain p => p.toJson
  | .table caption fields =>
    .object [("caption", .string caption), ("fields", Json.ofMap Plain.toJson fields)]

/-- The fields of a snapshot as JSON. -/
def Snapshot.jsonFields (s : Snapshot) : List (String × Json) :=
  [("globals", Json.ofMap Shown.toJson s.globals),
   ("locals", Json.ofMap Shown.toJson s.locals),
   ("upvalues", Json.ofMap Shown.toJson s.upvalues),
   ("callStack", Json.strings s.callStack)]

end BytecodeDebugger
