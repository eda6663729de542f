import BytecodeDebugger.Decimal.Notation

/-!
# Numbers in JSON texts

An integer without point and exponent keeps its value when 64 bits hold it. Any other number is a
float: of its digits the longest run at the front that 64 bits hold counts, and the float of that
run is multiplied or divided by the power of ten that is left, each step rounded to a double.
-/

namespace BytecodeDebugger.Json

/-- The float nearest to an integer of 64 bits and a sign. -/
def intFloat (n : Int) : Float :=
  if n < 0 then -n.natAbs.toUInt64.toFloat else n.natAbs.toUInt64.toFloat

/-- The number that a JSON text spells. -/
inductive Numeral where
  | int (n : Int)
  | float (x : Float)
  | overflow

namespace Numeral

/-- `f · 10 ^ e`, by one multiplication or division for every 308 powers and one for the rest.
`none` when the result is too large for a float. -/
def scale : Nat → Float → Int → Option Float
  | 0, f, _ => some f
  | fuel + 1, f, e =>
    if e.natAbs ≤ 308 then
      let power := Float.ofScientific 1 false e.natAbs
      if 0 ≤ e then
        let g := f * power
        if g.isInf then none else some g
      else some (f / power)
    else if f == 0.0 then some f
    else if 0 ≤ e then none
    else scale fuel (f / Float.ofScientific 1 false 308) (e + 308)

/-- The float of `significand · 10 ^ exponent`. A float is zero after five divisions. -/
def ofParts (negative : Bool) (significand : Nat) (exponent : Int) : Numeral :=
  match scale 8 significand.toUInt64.toFloat exponent with
  | none => .overflow
  | some f => .float (if negative then -f else f)

/-- The longest run of digits at the front that `limit` admits, continuing `n`: the number it makes,
how many digits it has, and how many are left over. -/
def keptDigits (n : Nat) : List Nat → Nat × Nat × Nat
  | [] => (n, 0, 0)
  | d :: ds =>
    if n * 10 + d ≤ Text.maxWord then
      let (m, kept, left) := keptDigits (n * 10 + d) ds
      (m, kept + 1, left)
    else (n, 0, ds.length + 1)

/-- The largest exponent that is read as such; a larger one only says that a number is out of
reach. -/
def maxExponent : Nat := 2147483647

/-- A number from its parts: sign, digits before the point, digits behind it if there is a point,
and the exponent if there is one. -/
def ofDigits (negative : Bool) (whole : List Nat) (fraction : Option (List Nat))
    (exponent : Option (Bool × Nat)) : Numeral :=
  let (m, _, left) := keptDigits 0 whole
  let (significand, dropped) : Nat × Int :=
    match fraction with
    | none => (m, left)
    | some digits =>
      let (m', kept, _) := keptDigits m digits
      (m', left - kept)
  match fraction, exponent with
  | none, none =>
    if left ≠ 0 then ofParts negative significand dropped
    else if !negative then .int significand
    else if significand = 0 || Nat.pow 2 63 < significand then
      .float (-significand.toUInt64.toFloat)
    else .int (-(significand : Int))
  | _, none => ofParts negative significand dropped
  | _, some (down, e) =>
    if maxExponent < e then
      if significand ≠ 0 && !down then .overflow
      else .float (if negative then -0.0 else 0.0)
    else ofParts negative significand (if down then dropped - e else dropped + e)

end Numeral

end BytecodeDebugger.Json
