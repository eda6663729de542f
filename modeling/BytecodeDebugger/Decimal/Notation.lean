import BytecodeDebugger.Decimal.Shortest
import BytecodeDebugger.Text.Blank
import BytecodeDebugger.Text.Count

/-!
# Decimals as texts

Writing a decimal with a point or with an exponent, and reading a float from the notation that
programs may use in a text: a sign, digits with a point anywhere among them, an exponent, or the
words for infinity and for no number.
-/

namespace BytecodeDebugger.Decimal

/-- Where the point stands: the number is `0.ddd · 10 ^ point`. -/
def point (d : Decimal) : Int := places d.digits + d.exponent

/-- Writes all digits, with at least `fraction` of them behind the point and no point before
none. -/
def positional (d : Decimal) (fraction : Nat) : List Char :=
  let ds := Nat.toDigits 10 d.digits
  let zeros (n : Nat) := List.replicate n '0'
  if 0 ≤ d.exponent then
    ds ++ zeros d.exponent.toNat ++ (if fraction = 0 then [] else '.' :: zeros fraction)
  else if 0 < d.point then ds.take d.point.toNat ++ '.' :: ds.drop d.point.toNat
  else '0' :: '.' :: zeros (-d.point).toNat ++ ds

/-- Writes one digit before the point and the exponent with its sign. -/
def scientific (d : Decimal) : List Char :=
  let e := d.point - 1
  let mantissa := match Nat.toDigits 10 d.digits with
    | [] => []
    | [c] => [c]
    | c :: cs => c :: '.' :: cs
  mantissa ++ 'e' :: (if e < 0 then '-' else '+') :: Nat.toDigits 10 e.natAbs

/-- The double nearest to `digits · 10 ^ exponent`. Beyond the reach of doubles the answer is known
without computing the power. -/
def toFloat (d : Decimal) : Float :=
  if d.digits = 0 || d.point < -330 then 0.0
  else if 310 < d.point then 1.0 / 0.0
  else Float.ofScientific d.digits (d.exponent < 0) d.exponent.natAbs

/-- The leading digits of a text: the number that they extend `n` to, how many they are, the
rest. -/
def leadingDigits (n count : Nat) : List Char → Nat × Nat × List Char
  | [] => (n, count, [])
  | c :: cs =>
    match Text.digit? c with
    | some d => leadingDigits (n * 10 + d) (count + 1) cs
    | none => (n, count, c :: cs)

/-- An exponent with its sign and at least one digit, up to the end of the text. -/
def exponent? (cs : List Char) : Option Int :=
  let (negative, cs) := match cs with
    | '-' :: cs => (true, cs)
    | '+' :: cs => (false, cs)
    | cs => (false, cs)
  match leadingDigits 0 0 cs with
  | (n, count, []) => if count = 0 then none else some (if negative then -n else n)
  | _ => none

/-- A decimal without sign, up to the end of the text. -/
def unsigned? (cs : List Char) : Option Decimal :=
  let (whole, wholeCount, rest) := leadingDigits 0 0 cs
  let (digits, fraction, rest) := match rest with
    | '.' :: rest => leadingDigits whole 0 rest
    | rest => (whole, 0, rest)
  if wholeCount + fraction = 0 then none
  else match rest with
    | [] => some ⟨digits, -fraction⟩
    | c :: rest =>
      if c = 'e' || c = 'E' then (exponent? rest).map fun e => ⟨digits, e - fraction⟩ else none

/-- A number in a text, without blanks around it. -/
def readFloat? (cs : List Char) : Option Float :=
  let (negative, body) := match cs with
    | '-' :: cs => (true, cs)
    | '+' :: cs => (false, cs)
    | cs => (false, cs)
  let word := String.ofList (body.map Char.toLower)
  let magnitude? :=
    if word = "inf" || word = "infinity" then some (1.0 / 0.0)
    else if word = "nan" then some (0.0 / 0.0)
    else (unsigned? body).map toFloat
  magnitude?.map fun x => if negative then -x else x

end BytecodeDebugger.Decimal
