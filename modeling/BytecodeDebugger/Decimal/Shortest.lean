import BytecodeDebugger.Decimal.Binary64

/-!
# The fewest digits that read back

Every double is the nearest double to a whole interval of reals. Among the decimals in that
interval the ones with the fewest digits are sought, and of those the nearest to the double.

With all numbers scaled by four, the double is `4m`, and the interval reaches from `4m - 2` to
`4m + 2`, or only down to `4m - 1` where the doubles below are twice as dense. Its ends belong to it
when `m` is even. For one digit, two digits, and so on, the two neighbours of the double on that
decimal grid are tried.
-/

namespace BytecodeDebugger

/-- The number `digits · 10 ^ exponent`. -/
structure Decimal where
  digits : Nat
  exponent : Int
  deriving DecidableEq, Repr

namespace Decimal

/-- How many decimal digits a number has. -/
def places (n : Nat) : Nat := (Nat.toDigits 10 n).length

/-- The reals that round to `m · 2 ^ q`, four times as large and in units of `2 ^ q`. -/
structure Interval where
  low : Nat
  value : Nat
  high : Nat
  closed : Bool
  /-- the unit is `unitNum / unitDen` -/
  unitNum : Nat
  unitDen : Nat

/-- The interval of a double that is not zero. -/
def Interval.of (m : Nat) (q : Int) : Interval where
  low := if m = Nat.pow 2 52 && q ≠ -1074 then 4 * m - 1 else 4 * m - 2
  value := 4 * m
  high := 4 * m + 2
  closed := m % 2 = 0
  unitNum := Nat.pow 2 (q - 2).toNat
  unitDen := Nat.pow 2 (2 - q).toNat

/-- The power of ten of the first digit. -/
def Interval.leading (i : Interval) : Int :=
  (places (i.value * i.unitNum * Nat.pow 10 400 / i.unitDen) : Int) - 401

/-- The multiple of `10 ^ k` in the interval that is nearest to the double, if there is one. -/
def Interval.hit (i : Interval) (k : Int) : Option Nat :=
  let p := i.unitNum * Nat.pow 10 (-k).toNat
  let q := i.unitDen * Nat.pow 10 k.toNat
  let inside (d : Nat) : Bool :=
    if i.closed then i.low * p ≤ d * q && d * q ≤ i.high * p
    else i.low * p < d * q && d * q < i.high * p
  let below := i.value * p / q
  let above := below + 1
  match inside below, inside above with
  | true, true =>
    let gapBelow := i.value * p - below * q
    let gapAbove := above * q - i.value * p
    -- of two as near as each other the even one
    if gapBelow < gapAbove || (gapBelow = gapAbove && below % 2 = 0) then some below
    else some above
  | true, false => some below
  | false, true => some above
  | false, false => none

/-- Leaves out trailing zeros, at most `fuel` of them. -/
def dropZeros : Nat → Decimal → Decimal
  | 0, d => d
  | fuel + 1, d =>
    if d.digits ≠ 0 ∧ d.digits % 10 = 0 then dropZeros fuel ⟨d.digits / 10, d.exponent + 1⟩ else d

/-- The shortest decimal that reads back as `m · 2 ^ q`; 17 digits always suffice. -/
def shortest (m : Nat) (q : Int) : Decimal :=
  if m = 0 then ⟨0, 0⟩
  else
    let i := Interval.of m q
    let lead := i.leading
    let found := (List.range 17).findSome? fun (n : Nat) =>
      let k := lead - n
      (i.hit k).map fun d => (⟨d, k⟩ : Decimal)
    dropZeros 17 (found.getD ⟨i.value * i.unitNum / i.unitDen, 0⟩)

end Decimal

end BytecodeDebugger
