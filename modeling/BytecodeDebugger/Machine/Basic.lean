import BytecodeDebugger.Chunk.Basic
import BytecodeDebugger.Heap
import BytecodeDebugger.Host
import BytecodeDebugger.Text.Count

/-!
# The state of the register machine

The machine holds the tables and functions of a program, the cells that closures share, and one
activation for every call that is running or parked. The globals are the fields of the first table.
Ids of frames and functions count up and are never used again.
-/

namespace BytecodeDebugger

/-- The name of a cell that holds a captured variable. -/
abbrev CellId := Nat

/-- A function with the cells of its upvalues and the file it was compiled from. -/
structure Closure where
  proto : Proto
  cells : List CellId
  file : String

/-- How many registers a frame may have, each of which takes 24 bytes. -/
def maxRegisters : Nat := Text.maxLength / 24

/-- The parameters of the function fit into the registers of a frame. -/
def Closure.Fits (c : Closure) : Prop := c.proto.numParams ≤ maxRegisters

instance (c : Closure) : Decidable c.Fits := inferInstanceAs (Decidable (_ ≤ _))

/-- What can be called. -/
inductive Callable where
  | closure (closure : Closure)
  | host (body : HostFunction)

/-- **A call in progress.** -/
structure Activation where
  closure : Closure
  registers : Array Value
  pc : Nat
  /-- where the results of the call it is waiting for go: the first register, and operand C -/
  pending : Option (Nat × Int)

namespace Activation

/-- The value of a register; one that was never set holds nil. -/
def register (a : Activation) (i : Nat) : Value := a.registers.getD i .nil

/-- Sets a register, after filling up to it with nil. -/
def setRegister (a : Activation) (i : Nat) (v : Value) : Activation :=
  -- a register in use needs no filling
  let filled := a.registers ++ Array.replicate (i + 1 - a.registers.size) Value.nil
  { a with registers := filled.setIfInBounds i v }

/-- Sets registers from `base` on, one for each value. -/
def setRegisters (a : Activation) (base : Nat) : List Value → Activation
  | [] => a
  | v :: vs => (a.setRegister base v).setRegisters (base + 1) vs

/-- Sets `n` registers from `base` on, to nil where values are missing. -/
def fillRegisters (a : Activation) (base : Nat) : Nat → List Value → Activation
  | 0, _ => a
  | n + 1, vs => (a.setRegister base (vs.headD .nil)).fillRegisters (base + 1) n vs.tail

/-- Hands over results: all of them when C is zero, and C - 1 otherwise. -/
def place (a : Activation) (base : Nat) (c : Int) (values : List Value) : Activation :=
  if c = 0 then a.setRegisters base values else a.fillRegisters base (c - 1).toNat values

/-- Hands results to the call that waits for them, if one does. -/
def deliver (a : Activation) (values : List Value) : Activation :=
  match a.pending with
  | none => a
  | some (base, c) => { a with pending := none }.place base c values

/-- Moves the counter, never before the first instruction. -/
def jump (a : Activation) (offset : Int) : Activation := { a with pc := (a.pc + offset).toNat }

end Activation

/-- **The state of the machine.** -/
structure Machine where
  heap : Heap
  cells : Array Value
  functions : Array Callable
  frames : SortedMap FrameId Activation
  nextFrame : FrameId
  /-- the lines printed and not yet taken -/
  output : Array String
  /-- the stack of the last error, rendered before its frames were dropped -/
  traceback : Option String

namespace Machine

/-- The table of globals. -/
def globalTable : TableId := 0

/-- The value of a global. -/
def global (m : Machine) (name : String) : Value := m.heap.get globalTable name

/-- Sets a global. -/
def setGlobal (m : Machine) (name : String) (v : Value) : Machine :=
  { m with heap := m.heap.set globalTable name v }

/-- Gives a new function an id. -/
def mint (m : Machine) (f : Callable) : FunctionId × Machine :=
  (m.functions.size, { m with functions := m.functions.push f })

/-- Makes a host function a global. -/
def register (m : Machine) (name : String) (body : HostFunction) : Machine :=
  let (id, m) := m.mint (.host body)
  m.setGlobal name (.function id)

/-- The machine before any program: the globals know themselves, the machine's version and the
functions every program starts with. -/
def initial : Machine :=
  let blank : Machine :=
    { heap := ⟨#[.empty]⟩, cells := #[], functions := #[], frames := .empty, nextFrame := 0,
      output := #[], traceback := none }
  let blank := blank.setGlobal "_G" (.table globalTable)
  let blank := blank.setGlobal "__vm" (.string "0.1.0")
  Host.builtins.foldl (fun m (name, body) => m.register name body) blank

/-- Makes a function of a chunk's main function. -/
def load (m : Machine) (chunk : Chunk) (file : String) : FunctionId × Machine :=
  m.mint (.closure ⟨chunk.main, [], file⟩)

/-- What a value calls. -/
def callable? (m : Machine) : Value → Option Callable
  | .function id => m.functions[id]?
  | _ => none

/-- The activation of a frame. -/
def frame? (m : Machine) (frame : FrameId) : Option Activation := m.frames.get? frame

/-- Stores the activation of a frame. -/
def setFrame (m : Machine) (frame : FrameId) (a : Activation) : Machine :=
  { m with frames := m.frames.insert frame a }

/-- Drops a frame. -/
def dropFrame (m : Machine) (frame : FrameId) : Machine :=
  { m with frames := m.frames.erase frame }

/-- How many activations there are. -/
def liveFrames (m : Machine) : Nat := m.frames.size

/-- Starts a call: the parameters get the arguments, cut or filled with nil to their number. -/
def enter (m : Machine) (closure : Closure) (args : List Value) : FrameId × Machine :=
  let n := closure.proto.numParams
  -- further registers come into being when they are set
  let registers := (args.take n ++ List.replicate (n - args.length) Value.nil).toArray
  (m.nextFrame,
    { m.setFrame m.nextFrame ⟨closure, registers, 0, none⟩ with nextFrame := m.nextFrame + 1 })

/-- The value of a cell. -/
def cell (m : Machine) (id : CellId) : Value := m.cells.getD id .nil

/-- Sets a cell. -/
def setCell (m : Machine) (id : CellId) (v : Value) : Machine :=
  { m with cells := m.cells.setIfInBounds id v }

/-- A new cell. -/
def newCell (m : Machine) (v : Value) : CellId × Machine :=
  (m.cells.size, { m with cells := m.cells.push v })

/-- The lines printed so far, which are then taken. -/
def takeOutput (m : Machine) : List String × Machine := (m.output.toList, { m with output := #[] })

/-- One line of a call stack. -/
def renderEntry (m : Machine) (entry : StackEntry) : String :=
  match m.frame? entry.frame with
  | some a =>
    let line := toString (a.closure.proto.lineAt entry.pc)
    "    at " ++ a.closure.proto.displayName ++ " (" ++ a.closure.file ++ ":" ++ line ++ ")"
  -- an entry may outlive its frame
  | none => "    at ? (frame " ++ toString entry.frame ++ ")"

/-- A call stack, one line for each entry. -/
def renderStack (m : Machine) (stack : List StackEntry) : String :=
  "\n".intercalate (stack.map m.renderEntry)

/-- What a frame shows to the debugger. -/
def view? (m : Machine) (frame : FrameId) : Option FrameView :=
  (m.frame? frame).map fun a =>
    { pc := a.pc
      file := a.closure.file
      locals := a.closure.proto.locals
      register := a.register
      upvalues := a.closure.proto.upvalues.zip (a.closure.cells.map m.cell) }

end Machine

end BytecodeDebugger
