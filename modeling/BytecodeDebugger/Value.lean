import BytecodeDebugger.Decimal.Notation

/-!
# Values of the debugged language

Texts and numbers are values; tables and functions are named by ids, so that two names of one table
are equal and two tables never are. Numbers compare as floats: no number differs from itself, and
both zeros are one.
-/

namespace BytecodeDebugger

/-- The name of a table. -/
abbrev TableId := Nat

/-- The name of a function. -/
abbrev FunctionId := Nat

/-- **A value.** -/
inductive Value where
  | nil
  | boolean (b : Bool)
  | number (x : Float)
  | string (s : String)
  | table (id : TableId)
  | function (id : FunctionId)
  deriving Inhabited

namespace Value

/-- Equality in the language. -/
def equals : Value → Value → Bool
  | .nil, .nil => true
  | .boolean a, .boolean b => a == b
  | .number x, .number y => x == y
  | .string s, .string t => s == t
  | .table a, .table b => a == b
  | .function a, .function b => a == b
  | _, _ => false

/-- Whether a value is nil. -/
def isNil : Value → Bool
  | .nil => true
  | _ => false

/-- Everything but nil and false counts as true. -/
def isTruthy : Value → Bool
  | .nil => false
  | .boolean b => b
  | _ => true

/-- The name of a value's type. -/
def typeName : Value → String
  | .nil => "nil"
  | .boolean _ => "boolean"
  | .number _ => "number"
  | .string _ => "string"
  | .table _ => "table"
  | .function _ => "function"

/-- The number that a value is, or that its text spells. -/
def toNumber? : Value → Option Float
  | .number x => some x
  | .string s => Decimal.readFloat? (Text.strip Text.isBlank s.toList)
  | _ => none

/-- An address of at least eight hexadecimal digits. -/
def addressText (n : Nat) : String :=
  let digits := Nat.toDigits 16 n
  String.ofList ('0' :: 'x' :: List.replicate (8 - digits.length) '0' ++ digits)

/-- A number as text: all its digits, never an exponent, and no point in an integer. Below `10 ^ 15`
integers are written exactly, so that zero has no sign. -/
def numberText (x : Float) : String :=
  match Binary64.ofFloat x with
  | .nan => "nan"
  | .infinite negative => if negative then "-inf" else "inf"
  | .finite negative m q =>
    let body := match Binary64.integer? m q with
      | some n =>
        if n < Nat.pow 10 15 then Nat.toDigits 10 n else (Decimal.shortest m q).positional 0
      | none => (Decimal.shortest m q).positional 0
    String.ofList (if negative && m ≠ 0 then '-' :: body else body)

/-- The text of a value. -/
def text : Value → String
  | .nil => "nil"
  | .boolean b => if b then "true" else "false"
  | .number x => numberText x
  | .string s => s
  | .table id => "table: " ++ addressText id
  | .function id => "function: " ++ addressText id

end Value

end BytecodeDebugger
