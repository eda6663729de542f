import BytecodeDebugger.Chunk.Basic
import BytecodeDebugger.Json.Decode
import BytecodeDebugger.Json.Writer

/-!
# Reading chunks

Chunks are JSON objects with documented keys. An instruction is an array of one to four integers of
32 bits, the first of them a code of eight bits; operands that are left out are zero.
-/

namespace BytecodeDebugger

open Json (Decoder Draft Scope)
open Json.Decoder (Field)

/-- What is wrong with a list of integers that is no instruction. -/
inductive InstructionFault where
  | empty
  | code (code : Int)
  | length (length : Nat)
  deriving DecidableEq, Repr

/-- The wording of a fault. -/
def InstructionFault.message : InstructionFault → String
  | .empty => "empty instruction"
  | .code n => "opcode " ++ String.ofList (Json.intText n) ++ " out of range"
  | .length n => "instruction has " ++ String.ofList (Nat.toDigits 10 n)
      ++ " fields, expected at most 4"

namespace Instruction

/-- The instruction that a list of integers is. The code is checked before the length. -/
def ofInts : List Int → Except InstructionFault Instruction
  | [] => .error .empty
  | code :: operands =>
    if code < 0 ∨ 255 < code then .error (.code code)
    else if 3 < operands.length then .error (.length (operands.length + 1))
    else .ok ⟨code.toNat.toUInt8, operands.getD 0 0, operands.getD 1 0, operands.getD 2 0⟩

/-- Reads an integer of 32 bits. -/
def operand : Decoder Int := Decoder.int (-2147483648) 2147483647

/-- Reads an instruction. -/
def decoder : Decoder Instruction := fun scope d => do
  let ints ← Decoder.list operand scope d
  match ofInts ints with
  | .ok i => return i
  | .error fault => .error (.shape (some fault.message))

end Instruction

/-- Reads a constant. Its kind shows in the kind of value, so that the value is read whole before
it is judged. -/
def Constant.decoder : Decoder Constant := fun scope d => do
  match ← Decoder.json scope d with
  | .null => return .nil
  | .bool b => return .boolean b
  | .int n => return .number (Json.intFloat n)
  | .float x => return .number x
  | .string s => return .string s
  | .array _ | .object _ => .error (.shape none)

/-- Reads a local variable. -/
def LocalVar.decoder : Decoder LocalVar :=
  Decoder.record ⟨"", 0, 0⟩ [
    Field.needed "varname" Decoder.string fun x r => { r with name := x },
    Field.needed "startpc" Decoder.nat fun x r => { r with startPc := x },
    Field.needed "endpc" Decoder.nat fun x r => { r with endPc := x }]

/-- Reads a function with at most `levels` levels of nesting. -/
def Proto.decoder : Nat → Decoder Proto
  -- not reached: entering the containers in between uses up the depth first
  | 0 => fun _ _ => .error .malformed
  | levels + 1 =>
    Decoder.record {} [
      Field.optional "name" (Decoder.option Decoder.string) fun x r => { r with name := x },
      Field.optional "numParams" Decoder.nat fun x r => { r with numParams := x },
      Field.needed "instructions" (Decoder.list Instruction.decoder)
        fun x r => { r with instructions := x.toArray },
      Field.optional "constants" (Decoder.list Constant.decoder)
        fun x r => { r with constants := x.toArray },
      Field.optional "locals" (Decoder.list LocalVar.decoder) fun x r => { r with locals := x },
      Field.optional "upvalues" (Decoder.list Decoder.string) fun x r => { r with upvalues := x },
      Field.optional "linePositions" (Decoder.list Decoder.nat)
        fun x r => { r with lines := x.toArray },
      Field.optional "protos" (Decoder.list (Proto.decoder levels))
        fun x r => { r with protos := x }]

/-- Reads a function. The containers that may be entered bound the nesting of functions. -/
def Proto.nested : Decoder Proto := fun scope => Proto.decoder (scope.depth + 1) scope

/-- Reads a chunk. -/
def Chunk.decoder : Decoder Chunk :=
  Decoder.record { main := {} } [
    Field.optional "sourceName" (Decoder.option Decoder.string)
      fun x r => { r with sourceName := x },
    Field.optional "sourcePath" (Decoder.option Decoder.string)
      fun x r => { r with sourcePath := x },
    Field.needed "main" Proto.nested fun x r => { r with main := x }]

/-- Reads a chunk from a text. -/
def Chunk.ofText (s : String) : Except JsonError Chunk := Json.decodeText Chunk.decoder s

/-- Reads a chunk from a value. -/
def Chunk.ofJson (j : Json) : Except JsonError Chunk := Json.decodeValue Chunk.decoder j

end BytecodeDebugger
