/-!
# What the bits of a double say

A double is a signed mantissa times a power of two, an infinity, or no number.
-/

namespace BytecodeDebugger

/-- **A double taken apart.** -/
inductive Binary64 where
  | nan
  | infinite (negative : Bool)
  /-- plus or minus `mantissa · 2 ^ exponent` -/
  | finite (negative : Bool) (mantissa : Nat) (exponent : Int)
  deriving DecidableEq, Repr

namespace Binary64

/-- One sign bit, eleven bits of exponent, 52 bits of mantissa; the leading bit of the mantissa is
not stored unless the exponent is the least. -/
def ofBits (bits : UInt64) : Binary64 :=
  let n := bits.toNat
  let negative := n / Nat.pow 2 63 = 1
  let field : Nat := n / Nat.pow 2 52 % Nat.pow 2 11
  let fraction : Nat := n % Nat.pow 2 52
  if field = 2047 then if fraction = 0 then .infinite negative else .nan
  else if field = 0 then .finite negative fraction (-1074)
  else .finite negative (Nat.pow 2 52 + fraction) ((field : Int) - 1075)

/-- The parts of a float. -/
def ofFloat (x : Float) : Binary64 := ofBits x.toBits

/-- The integer that a mantissa and an exponent make, if they make one. -/
def integer? (mantissa : Nat) (exponent : Int) : Option Nat :=
  if 0 ≤ exponent then some (mantissa * Nat.pow 2 exponent.toNat)
  else
    let unit := Nat.pow 2 (-exponent).toNat
    if mantissa % unit = 0 then some (mantissa / unit) else none

end Binary64

end BytecodeDebugger
