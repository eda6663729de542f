import BytecodeDebugger.Interpreter

/-!
# Compiled chunks

A chunk holds one main function. A function is a list of instructions with a table of constants,
the source line of every instruction, the names of its locals and upvalues, and the functions nested
in it.
-/

namespace BytecodeDebugger

/-- What an instruction does. -/
inductive Op where
  | move
  | loadConstant
  | loadBool
  | loadNil
  | getUpvalue
  | getGlobal
  | getTable
  | setGlobal
  | setUpvalue
  | setTable
  | newTable
  | add
  | sub
  | mul
  | div
  | jump
  | equal
  | less
  | lessEqual
  | call
  | return
  | close
  | closure
  /-- a code that stands for nothing -/
  | unknown (code : UInt8)
  deriving DecidableEq, Repr

namespace Op

/-- The code of a return. -/
def returnCode : UInt8 := 30

/-- The code of a close. -/
def closeCode : UInt8 := 35

/-- The code of a closure declaration. -/
def closureCode : UInt8 := 36

/-- The code of a call. -/
def callCode : UInt8 := 28

/-- What a code stands for. -/
def ofCode (code : UInt8) : Op :=
  match code.toNat with
  | 0 => .move
  | 1 => .loadConstant
  | 2 => .loadBool
  | 3 => .loadNil
  | 4 => .getUpvalue
  | 5 => .getGlobal
  | 6 => .getTable
  | 7 => .setGlobal
  | 8 => .setUpvalue
  | 9 => .setTable
  | 10 => .newTable
  | 12 => .add
  | 13 => .sub
  | 14 => .mul
  | 15 => .div
  | 22 => .jump
  | 23 => .equal
  | 24 => .less
  | 25 => .lessEqual
  | 28 => .call
  | 30 => .return
  | 35 => .close
  | 36 => .closure
  | _ => .unknown code

end Op

/-- An instruction: its code and three operands. -/
structure Instruction where
  code : UInt8
  a : Int := 0
  b : Int := 0
  c : Int := 0
  deriving DecidableEq, Repr

/-- A constant of a function. -/
inductive Constant where
  | nil
  | boolean (b : Bool)
  | number (x : Float)
  | string (s : String)

/-- The value of a constant. -/
def Constant.value : Constant → Value
  | .nil => .nil
  | .boolean b => .boolean b
  | .number x => .number x
  | .string s => .string s

/-- **A function as compiled.** -/
structure Proto where
  name : Option String := none
  numParams : Nat := 0
  instructions : Array Instruction := #[]
  constants : Array Constant := #[]
  locals : List LocalVar := []
  /-- names, in the order of capture -/
  upvalues : List String := []
  /-- the source line of each instruction -/
  lines : Array Nat := #[]
  protos : List Proto := []

/-- The name shown for a function. -/
def Proto.displayName (p : Proto) : String := p.name.getD "function"

/-- The source line of an instruction, zero when it is not known. -/
def Proto.lineAt (p : Proto) (pc : Nat) : Nat := p.lines.getD pc 0

/-- A compiled chunk. -/
structure Chunk where
  sourceName : Option String := none
  /-- where the source is, seen from the chunk -/
  sourcePath : Option String := none
  main : Proto

end BytecodeDebugger
