import BytecodeDebugger.Text.Blank

/-!
# Counts in texts

A count is a non-empty run of decimal digits, perhaps behind a plus sign, whose value does not
exceed a limit. A text that is no count is refused for the first reason met from left to right.
-/

namespace BytecodeDebugger.Text

/-- The largest number of 64 bits. -/
def maxWord : Nat := 18446744073709551615

/-- The greatest length that anything in memory can have. -/
def maxLength : Nat := 9223372036854775807

theorem maxLength_le_maxWord : maxLength ≤ maxWord := by decide

/-- Why a text is no count. -/
inductive CountFault where
  | empty
  | digit
  | large
  deriving DecidableEq, Repr

/-- The wording of a fault. -/
def CountFault.message : CountFault → String
  | .empty => "cannot parse integer from empty string"
  | .digit => "invalid digit found in string"
  | .large => "number too large to fit in target type"

/-- The digit that a character stands for. -/
def digit? (c : Char) : Option Nat :=
  if '0' ≤ c ∧ c ≤ '9' then some (c.toNat - '0'.toNat) else none

/-- Reads on after the digits of `n`. -/
def readDigits (limit n : Nat) : List Char → Except CountFault Nat
  | [] => .ok n
  | c :: cs =>
    match digit? c with
    | none => .error .digit
    | some d => if n * 10 + d ≤ limit then readDigits limit (n * 10 + d) cs else .error .large

/-- Reads a count of at most `limit`. -/
def readCount (limit : Nat) : List Char → Except CountFault Nat
  | [] => .error .empty
  | ['+'] => .error .digit
  | '+' :: cs => readDigits limit 0 cs
  | cs => readDigits limit 0 cs

end BytecodeDebugger.Text
