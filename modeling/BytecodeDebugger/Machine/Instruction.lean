import BytecodeDebugger.Machine.Basic

/-!
# What one instruction does

`perform` carries out an instruction in an activation whose counter already points behind it. What
is left to the run loop is an `Effect`: to go on, to enter or leave a function, to let a host
function work, or to raise an error.

An operand of 256 or more names a constant, a smaller one a register.
-/

namespace BytecodeDebugger

/-- **What the run loop does after an instruction.** -/
inductive Effect where
  | next
  /-- goes on in a call that was started -/
  | enter (frame : FrameId)
  | leave (values : List Value)
  /-- lets a host function work, and hands its results to the registers from `base` on -/
  | host (body : Host) (base : Nat) (c : Int)
  | fault (message : String)
  /-- starts a call whose registers do not fit into memory -/
  | overflow

namespace Machine

/-- The operand from which on constants are named. -/
def constantBase : Int := 256

/-- An element by an operand, which may be negative or too large. -/
def pick {α : Type} (xs : List α) (i : Int) : Option α := if 0 ≤ i then xs[i.toNat]? else none

/-- A constant. -/
def constant (a : Activation) (i : Int) : Except String Value :=
  match if 0 ≤ i then a.closure.proto.constants[i.toNat]? else none with
  | some k => .ok k.value
  | none => .error ("constant " ++ toString i ++ " out of range")

/-- A constant or a register. -/
def operand (a : Activation) (i : Int) : Except String Value :=
  if constantBase ≤ i then constant a (i - constantBase) else .ok (a.register i.toNat)

/-- The cell of an upvalue. -/
def upvalue (a : Activation) (i : Int) : Except String CellId :=
  match pick a.closure.cells i with
  | some cell => .ok cell
  | none => .error ("upvalue " ++ toString i ++ " out of range")

/-- The refusal to index a value that is no table. -/
def indexFault (v : Value) : String := "attempt to index a " ++ v.typeName ++ " value"

/-- The refusal to calculate with a value that is no number. -/
def arithmeticFault (v : Value) : String :=
  "attempt to perform arithmetic on a " ++ v.typeName ++ " value"

/-- The refusal to call a value that is no function. -/
def callFault (v : Value) : String := "attempt to call a " ++ v.typeName ++ " value"

/-- The float that an arithmetic instruction makes. -/
def arithmetic : Op → Float → Float → Float
  | .add, x, y => x + y
  | .sub, x, y => x - y
  | .mul, x, y => x * y
  | _, x, y => x / y

/-- Whether the first value is less than the second, or equal to it where that counts. Only two
numbers or two texts compare. -/
def compare (orEqual : Bool) : Value → Value → Except String Bool
  | .number x, .number y => .ok (x < y || (orEqual && x == y))
  | .string s, .string t => .ok (s < t || (orEqual && s == t))
  | v, w => .error ("attempt to compare " ++ v.typeName ++ " with " ++ w.typeName)

/-- Captures the upvalues of a closure: each of the instructions behind the declaration moves a
register of this frame into a new cell or shares one of its own cells. -/
def capture (m : Machine) (a : Activation) :
    Nat → Machine × Activation × Except String (List CellId)
  | 0 => (m, a, .ok [])
  | n + 1 =>
    match a.closure.proto.instructions[a.pc]? with
    | none => (m, a, .error "closure capture list is truncated")
    | some i =>
      -- the counter passes a capture even if it fails
      let a := { a with pc := a.pc + 1 }
      let found : Except String (CellId × Machine) :=
        match Op.ofCode i.code with
        | .move => .ok (m.newCell (a.register i.b.toNat))
        | .getUpvalue => (upvalue a i.b).map fun cell => (cell, m)
        | _ => .error ("opcode " ++ toString i.code ++ " cannot capture an upvalue")
      match found with
      | .error fault => (m, a, .error fault)
      | .ok (cell, m) =>
        let (m, a, rest) := capture m a n
        (m, a, rest.map (cell :: ·))

/-- Goes on with a value, or raises a fault. -/
def orFault {α : Type} (m : Machine) (a : Activation) (x : Except String α)
    (f : α → Machine × Activation × Effect) : Machine × Activation × Effect :=
  match x with
  | .ok v => f v
  | .error message => (m, a, .fault message)

/-- Passes over the next instruction on a condition. -/
def skipIf (m : Machine) (a : Activation) (skip : Bool) : Machine × Activation × Effect :=
  (m, if skip then a.jump 1 else a, .next)

/-- Calls a value: the arguments are the `B - 1` registers behind it. -/
def performCall (m : Machine) (a : Activation) (i : Instruction) : Machine × Activation × Effect :=
  let base := i.a.toNat
  let callee := a.register base
  let args := (List.range (i.b - 1).toNat).map fun n => a.register (base + 1 + n)
  match m.callable? callee with
  | some (.closure closure) =>
    if closure.Fits then
      let (frame, m) := m.enter closure args
      (m, { a with pending := some (base, i.c) }, .enter frame)
    else (m, a, .overflow)
  | some (.host body) => (m, a, .host (body args) base i.c)
  | none => (m, a, .fault (callFault callee))

/-- Declares a closure. -/
def performClosure (m : Machine) (a : Activation) (i : Instruction) :
    Machine × Activation × Effect :=
  match pick a.closure.proto.protos i.b with
  | none => (m, a, .fault ("prototype " ++ toString i.b ++ " out of range"))
  | some proto =>
    let (m, a, cells) := m.capture a proto.upvalues.length
    orFault m a cells fun cells =>
      let (id, m) := m.mint (.closure ⟨proto, cells, a.closure.file⟩)
      (m, a.setRegister i.a.toNat (.function id), .next)

/-- **Carries out an instruction.** -/
def perform (m : Machine) (a : Activation) (i : Instruction) : Machine × Activation × Effect :=
  let target := i.a.toNat
  let store (v : Value) : Machine × Activation × Effect := (m, a.setRegister target v, .next)
  match Op.ofCode i.code with
  | .move => store (a.register i.b.toNat)
  | .loadConstant => orFault m a (constant a i.b) store
  | .loadBool =>
    (m, (a.setRegister target (.boolean (i.b ≠ 0))).jump (if i.c ≠ 0 then 1 else 0), .next)
  | .loadNil =>
    -- at least one register, also when B lies before A
    (m, a.fillRegisters target ((max (max i.a i.b) 0).toNat + 1 - target) [], .next)
  | .getUpvalue => orFault m a (upvalue a i.b) fun cell => store (m.cell cell)
  | .getGlobal => orFault m a (constant a i.b) fun name => store (m.global name.text)
  | .getTable =>
    orFault m a (operand a i.c) fun key =>
      match a.register i.b.toNat with
      | .table id => store (m.heap.get id key.text)
      | v => (m, a, .fault (indexFault v))
  | .setGlobal =>
    orFault m a (constant a i.b) fun name =>
      (m.setGlobal name.text (a.register target), a, .next)
  | .setUpvalue =>
    orFault m a (upvalue a i.b) fun cell => (m.setCell cell (a.register target), a, .next)
  | .setTable =>
    orFault m a (operand a i.b) fun key => orFault m a (operand a i.c) fun v =>
      match a.register target with
      | .table id =>
        -- no table has a field under nil
        if key.isNil then (m, a, .fault "table index is nil")
        else ({ m with heap := m.heap.set id key.text v }, a, .next)
      | v => (m, a, .fault (indexFault v))
  | .newTable =>
    let (id, heap) := m.heap.alloc .empty
    ({ m with heap }, a.setRegister target (.table id), .next)
  | .add | .sub | .mul | .div =>
    orFault m a (operand a i.b) fun v => orFault m a (operand a i.c) fun w =>
      match v.toNumber?, w.toNumber? with
      | some x, some y => store (.number (arithmetic (Op.ofCode i.code) x y))
      -- the left operand is blamed first
      | none, _ => (m, a, .fault (arithmeticFault v))
      | some _, none => (m, a, .fault (arithmeticFault w))
  | .jump => (m, a.jump i.b, .next)
  | .equal =>
    orFault m a (operand a i.b) fun v => orFault m a (operand a i.c) fun w =>
      -- the next instruction is passed over unless the comparison comes out as A says
      m.skipIf a (v.equals w != decide (i.a ≠ 0))
  | .less =>
    orFault m a (operand a i.b) fun v => orFault m a (operand a i.c) fun w =>
      orFault m a (compare false v w) fun holds => m.skipIf a (holds != decide (i.a ≠ 0))
  | .lessEqual =>
    orFault m a (operand a i.b) fun v => orFault m a (operand a i.c) fun w =>
      orFault m a (compare true v w) fun holds => m.skipIf a (holds != decide (i.a ≠ 0))
  | .call => m.performCall a i
  | .return =>
    (m, a, .leave ((List.range (i.b - 1).toNat).map fun n => a.register (target + n)))
  -- what was captured is in cells already, so that there is nothing to close
  | .close => (m, a, .next)
  | .closure => m.performClosure a i
  | .unknown code => (m, a, .fault ("unknown opcode " ++ toString code))

end Machine

end BytecodeDebugger
