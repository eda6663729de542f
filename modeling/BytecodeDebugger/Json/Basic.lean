import BytecodeDebugger.SortedMap
import BytecodeDebugger.Decimal.Binary64

/-!
# JSON values

Integers and floats are told apart: what is written with a point or an exponent is a float, and so
is an integer too large for 64 bits. Fields stand in the order in which they are written;
`Json.canonical` puts them into key order, the last of several fields with one key being the one
that counts.
-/

namespace BytecodeDebugger

/-- **A JSON value.** -/
inductive Json where
  | null
  | bool (b : Bool)
  | int (n : Int)
  | float (x : Float)
  | string (s : String)
  | array (items : List Json)
  | object (fields : List (String × Json))
  deriving Inhabited

namespace Json

mutual

/-- The same value with the fields of every object in key order, each key once. -/
def canonical : Json → Json
  | .array items => .array (canonicalItems items)
  | .object fields => .object (SortedMap.ofList (canonicalFields fields)).toList
  | j => j

/-- Every item in canonical form. -/
def canonicalItems : List Json → List Json
  | [] => []
  | j :: js => j.canonical :: canonicalItems js

/-- Every field with its value in canonical form, in the order given. -/
def canonicalFields : List (String × Json) → List (String × Json)
  | [] => []
  | (k, j) :: fs => (k, j.canonical) :: canonicalFields fs

end

mutual

/-- How many containers stand around the innermost value. -/
def nesting : Json → Nat
  | .array items => itemsNesting items + 1
  | .object fields => fieldsNesting fields + 1
  | _ => 0

/-- The deepest nesting of an item. -/
def itemsNesting : List Json → Nat
  | [] => 0
  | j :: js => max j.nesting (itemsNesting js)

/-- The deepest nesting of the value of a field. -/
def fieldsNesting : List (String × Json) → Nat
  | [] => 0
  | (_, j) :: fs => max j.nesting (fieldsNesting fs)

end

/-- A float as JSON: what is no finite number is null. -/
def ofFloat (x : Float) : Json :=
  match Binary64.ofFloat x with
  | .finite .. => .float x
  | _ => .null

/-- A natural number. -/
def nat (n : Nat) : Json := .int n

/-- Null for none. -/
def option {α : Type} (f : α → Json) : Option α → Json
  | none => .null
  | some a => f a

/-- An array of texts. -/
def strings (ss : List String) : Json := .array (ss.map .string)

/-- The object of a map. -/
def ofMap {α : Type} (f : α → Json) (m : SortedMap String α) : Json :=
  .object (m.toList.map fun p => (p.1, f p.2))

/-- The value of an object's last field under `key`. -/
def field? (key : String) : Json → Option Json
  | .object fields => (fields.reverse.find? (·.1 = key)).map (·.2)
  | _ => none

/-- The text that a value is. -/
def string? : Json → Option String
  | .string s => some s
  | _ => none

/-- The truth value that a value is. -/
def bool? : Json → Option Bool
  | .bool b => some b
  | _ => none

/-- The natural number that a value is; a float never is one. -/
def nat? : Json → Option Nat
  | .int n => if 0 ≤ n then some n.toNat else none
  | _ => none

end Json

end BytecodeDebugger
